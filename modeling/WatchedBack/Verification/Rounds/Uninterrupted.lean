import WatchedBack.Verification.Collect.Services
import WatchedBack.Model.Rounds

/-! # A round without interruption

The steps of a round, one after the other, are the loops of `collect`. -/

namespace WatchedBack

open Fallible

section uninterrupted

variable {col : Collation} {carried : ℕ → Bool} {fp : ℚ} {l l' : Locals} {t t' : ServiceTables}
  {entries : List Json}

theorem runSteps_cons_eq_ok {step : Step} {steps : List Step} {r : Locals × ServiceTables} :
    runSteps col carried fp l t (step :: steps) = .ok r ↔
      ∃ m, step.exec col carried fp l t = .ok m ∧ runSteps col carried fp m.1 m.2 steps = .ok r :=
  foldlM_cons_eq_ok

theorem runSteps_append_eq_ok {before after : List Step} {r : Locals × ServiceTables} :
    runSteps col carried fp l t (before ++ after) = .ok r ↔
      ∃ m, runSteps col carried fp l t before = .ok m ∧
        runSteps col carried fp m.1 m.2 after = .ok r :=
  foldlM_append_eq_ok

/-! ### What a step can do -/

/-- The lookups are for the texts that the reply has, and start the counters again. -/
theorem lookupService_cases {service : String × Json} {m : Locals × ServiceTables}
    (h : lookupService col service l t = .ok m) :
    ∃ host type : String, service.2.path ["logs", "host"] >>= Json.asString = .ok host ∧
      let hosts := getHost col host (nextId (t.hosts.map NameRow.id)) t.hosts
      let services :=
        getService col hosts.2 service.1 (nextId (t.services.map ServiceRow.id)) t.services
      let types := getServiceType col type (nextId (t.types.map NameRow.id)) t.types
      m = (⟨hosts.2 :: l.hosts, l.sent, l.alerts, hosts.2, services.2, types.2, "", 0, 0, 0, 0⟩,
        { t with hosts := hosts.1, services := services.1, types := types.1 }) := by
  obtain ⟨logs, hlogs, h⟩ := bind_eq_ok.mp h
  obtain ⟨hostJson, hhostJson, h⟩ := bind_eq_ok.mp h
  obtain ⟨host, hhost, h⟩ := bind_eq_ok.mp h
  obtain ⟨status, -, h⟩ := bind_eq_ok.mp h
  obtain ⟨properties, -, h⟩ := bind_eq_ok.mp h
  obtain ⟨typeJson, -, h⟩ := bind_eq_ok.mp h
  obtain ⟨type, -, h⟩ := bind_eq_ok.mp h
  cases h
  have hpath : service.2.path ["logs", "host"] = .ok hostJson :=
    Json.path_pair_eq_ok.mpr ⟨logs, hlogs, hhostJson⟩
  exact ⟨host, type, bind_eq_ok.mpr ⟨hostJson, hpath, hhost⟩, rfl⟩

/-- The alert of a service is added, or there is none. -/
theorem Step.exec_sendService {service : String × Json} {m : Locals × ServiceTables}
    (h : (Step.sendService service).exec col carried fp l t = .ok m) :
    m = (l, t) ∨ ∃ host : String, m = ({ l with alerts := l.alerts ++ [.service l.hostId l.servId
      ("Service " ++ service.1 ++ " on " ++ host ++ " have " ++ toString l.failed ++
        " failed componant")] }, t) := by
  rw [Step.exec] at h
  split at h
  · obtain ⟨hostJson, -, h⟩ := bind_eq_ok.mp h
    obtain ⟨host, -, h⟩ := bind_eq_ok.mp h
    cases h
    exact Or.inr ⟨host, rfl⟩
  · cases h
    exact Or.inl rfl

/-- The statement for the next host is sent, or there is no host. -/
theorem Step.exec_missing {m : Locals × ServiceTables}
    (h : Step.missing.exec col carried fp l t = .ok m) :
    m = (l, t) ∨ ∃ hostId hosts, m = ({ l with hosts := hosts } : Locals).ofRound
      ((l.round t).exec carried fun t => t.insertMissing hostId fp) := by
  rw [Step.exec] at h
  split at h
  · cases h
    exact Or.inl rfl
  · cases h
    exact Or.inr ⟨_, _, rfl⟩

/-! ### The loops of a service -/

/-- A loop of `collect` is the steps of its iterations. -/
theorem runSteps_map {σ : Type} {f : σ → Json → Except Fault σ} {step : Json → Step}
    (state : σ → Locals × ServiceTables) (hexec : ∀ s entry s', f s entry = .ok s' →
      (step entry).exec col carried fp (state s).1 (state s).2 = .ok (state s'))
    {s s' : σ} (h : entries.foldlM f s = .ok s') :
    runSteps col carried fp (state s).1 (state s).2 (entries.map step) = .ok (state s') := by
  induction entries generalizing s with
  | nil =>
      cases h
      rfl
  | cons entry entries ih =>
      obtain ⟨m, hm, h⟩ := foldlM_cons_eq_ok.mp h
      exact runSteps_cons_eq_ok.mpr ⟨state m, hexec s entry m hm, ih h⟩

theorem runSteps_log {s s' : LogScan}
    (h : entries.foldlM (collectLog col carried l.servId) s = .ok s') :
    runSteps col carried fp (l.ofLogScan s).1 s.round.tables (entries.map .log) =
      .ok (l.ofLogScan s') := by
  apply runSteps_map l.ofLogScan _ h
  intro s entry m hm
  exact bind_eq_ok.mpr ⟨m, hm, rfl⟩

theorem runSteps_process {s s' : StatusScan}
    (h : entries.foldlM (collectProcess col carried fp l.servId) s = .ok s') :
    runSteps col carried fp (l.ofStatusScan s).1 s.round.tables (entries.map .process) =
      .ok (l.ofStatusScan s') := by
  apply runSteps_map l.ofStatusScan _ h
  intro s entry m hm
  exact bind_eq_ok.mpr ⟨m, hm, rfl⟩

theorem runSteps_socket {s s' : StatusScan}
    (h : entries.foldlM (collectSocket col carried fp l.servId) s = .ok s') :
    runSteps col carried fp (l.ofStatusScan s).1 s.round.tables (entries.map .socket) =
      .ok (l.ofStatusScan s') := by
  apply runSteps_map l.ofStatusScan _ h
  intro s entry m hm
  exact bind_eq_ok.mpr ⟨m, hm, rfl⟩

/-- The log entries of a service and their alert. -/
theorem runSteps_logs (fp : ℚ) {r : Round} (hstart : l.text = "" ∧ l.maxlvl = 0)
    (h : collectLogs col carried l.hostId l.servId (l.round t) entries = .ok r) :
    ∃ text maxlvl, runSteps col carried fp l t (entries.map .log ++ [.sendLog]) =
      .ok ({ l with sent := r.sent, alerts := r.alerts, text := text, maxlvl := maxlvl },
        r.tables) := by
  obtain ⟨s, hs, h⟩ := bind_eq_ok.mp h
  have hscan : (⟨l.round t, "", 0⟩ : LogScan) = l.logScan t := by
    rw [Locals.logScan, hstart.1, hstart.2]
  rw [hscan] at hs
  have hlogs : runSteps col carried fp l t (entries.map .log) = .ok (l.ofLogScan s) :=
    runSteps_log hs
  refine ⟨s.text, s.maxlvl, runSteps_append_eq_ok.mpr ⟨_, hlogs, ?_⟩⟩
  refine runSteps_cons_eq_ok.mpr ⟨_, rfl, ?_⟩
  split at h
  · next hpos =>
    cases h
    simp only [Locals.ofLogScan, hpos, if_true]
    rfl
  · next hzero =>
    cases h
    simp only [Locals.ofLogScan, hzero, if_false]
    rfl

/-- The processes and sockets of a service. -/
theorem runSteps_status {process sockets : List Json} {s s' : StatusScan}
    (hstart : l.failed = 0 ∧ l.nfailed = 0 ∧ l.ok = 0)
    (hp : process.foldlM (collectProcess col carried fp l.servId) ⟨l.round t, 0, 0, 0⟩ = .ok s)
    (hs : sockets.foldlM (collectSocket col carried fp l.servId) s = .ok s') :
    runSteps col carried fp l t (process.map .process ++ sockets.map .socket) =
      .ok (l.ofStatusScan s') := by
  have hscan : (⟨l.round t, 0, 0, 0⟩ : StatusScan) = l.statusScan t := by
    rw [Locals.statusScan, hstart.1, hstart.2.1, hstart.2.2]
  rw [hscan] at hp
  have hfirst : runSteps col carried fp l t (process.map .process) = .ok (l.ofStatusScan s) :=
    runSteps_process hp
  exact runSteps_append_eq_ok.mpr ⟨_, hfirst, runSteps_socket hs⟩

/-- What the iteration of a service does after its lookups. -/
def afterLookup (col : Collation) (carried : ℕ → Bool) (fp : ℚ) (service : String × Json)
    (m : Locals × ServiceTables) : Except Fault (Round × List ℕ) := do
  let v := service.2
  let r ← collectLogs col carried m.1.hostId m.1.servId (m.1.round m.2)
    (← (← v.member "logs").member "entries").elements
  let s ← (← (← v.member "status").member "process").elements.foldlM
    (collectProcess col carried fp m.1.servId) ⟨r, 0, 0, 0⟩
  let s ← (← (← v.member "status").member "sockets").elements.foldlM
    (collectSocket col carried fp m.1.servId) s
  let alerts ←
    if 0 < s.nfailed then do
      let msg := "Service " ++ service.1 ++ " on " ++ (← (← v.member "host").asString) ++ " have " ++
        toString s.failed ++ " failed componant"
      pure (s.round.alerts ++ [.service m.1.hostId m.1.servId msg])
    else
      pure s.round.alerts
  let r := { s.round with alerts := alerts }
  let r := r.exec carried fun t => t.updateType m.1.servId m.1.typeId
  let r := r.exec carried fun t => t.insertHistory ⟨m.1.servId, fp, s.failed, 0, s.ok⟩
  return (r, m.1.hosts)

theorem collectService_eq (service : String × Json) :
    collectService col carried fp (l.round t, l.hosts) service =
      lookupService col service l t >>= afterLookup col carried fp service := by
  simp only [collectService, collectServiceWith, lookupService, afterLookup, bind_assoc, pure_bind]
  rfl

/-- The counters as the lookups leave them. -/
structure Locals.Fresh (l : Locals) : Prop where
  text : l.text = ""
  maxlvl : l.maxlvl = 0
  failed : l.failed = 0
  nfailed : l.nfailed = 0
  ok : l.ok = 0

theorem lookupService_fresh {service : String × Json} {m : Locals × ServiceTables}
    (h : lookupService col service l t = .ok m) :
    m.1.Fresh ∧ m.1.hosts.length = l.hosts.length + 1 ∧ m.1.alerts = l.alerts := by
  obtain ⟨host, type, -, rfl⟩ := lookupService_cases h
  exact ⟨⟨rfl, rfl, rfl, rfl, rfl⟩, rfl, rfl⟩

/-- The round at the end of a service whose counters are in the locals. -/
def closeService (carried : ℕ → Bool) (fp : ℚ) (l : Locals) (t : ServiceTables)
    (alerts : List ServiceAlert) : Round :=
  let r : Round := ⟨t, l.sent, alerts⟩
  let r := r.exec carried fun t => t.updateType l.servId l.typeId
  r.exec carried fun t => t.insertHistory ⟨l.servId, fp, l.failed, 0, l.ok⟩

theorem runSteps_closeService {service : String × Json} {alerts : List ServiceAlert}
    (h : (Step.sendService service).exec col carried fp l t = .ok ({ l with alerts := alerts }, t)) :
    runSteps col carried fp l t [.sendService service, .updateType, .history] =
      .ok (l.ofRound (closeService carried fp l t alerts)) := by
  apply runSteps_cons_eq_ok.mpr
  exact ⟨_, h, rfl⟩

/-- What follows the lookups of a service: its three loops, its alert and its two rows. -/
theorem afterLookup_cases {service : String × Json} {r : Round} {hosts : List ℕ}
    (h : afterLookup col carried fp service (l, t) = .ok (r, hosts)) :
    ∃ entries process sockets r₁ s₁ s₂,
      service.2.path ["logs", "entries"] = .ok entries ∧
      service.2.path ["status", "process"] = .ok process ∧
      service.2.path ["status", "sockets"] = .ok sockets ∧
      collectLogs col carried l.hostId l.servId (l.round t) entries.elements = .ok r₁ ∧
      process.elements.foldlM (collectProcess col carried fp l.servId) ⟨r₁, 0, 0, 0⟩ = .ok s₁ ∧
      sockets.elements.foldlM (collectSocket col carried fp l.servId) s₁ = .ok s₂ ∧
      hosts = l.hosts ∧ ∃ alerts,
        r = closeService carried fp (l.ofStatusScan s₂).1 s₂.round.tables alerts ∧
        ((∃ host, 0 < s₂.nfailed ∧ service.2.member "host" >>= Json.asString = .ok host ∧
            alerts = s₂.round.alerts ++ [.service l.hostId l.servId
              ("Service " ++ service.1 ++ " on " ++ host ++ " have " ++ toString s₂.failed ++
                " failed componant")]) ∨
          ¬ 0 < s₂.nfailed ∧ alerts = s₂.round.alerts) := by
  obtain ⟨logs, hlogs, h⟩ := bind_eq_ok.mp h
  obtain ⟨entries, hentries, h⟩ := bind_eq_ok.mp h
  obtain ⟨r₁, hr₁, h⟩ := bind_eq_ok.mp h
  obtain ⟨status, hstatus, h⟩ := bind_eq_ok.mp h
  obtain ⟨process, hprocess, h⟩ := bind_eq_ok.mp h
  obtain ⟨s₁, hs₁, h⟩ := bind_eq_ok.mp h
  obtain ⟨status', hstatus', h⟩ := bind_eq_ok.mp h
  obtain ⟨sockets, hsockets, h⟩ := bind_eq_ok.mp h
  obtain ⟨s₂, hs₂, h⟩ := bind_eq_ok.mp h
  refine ⟨entries, process, sockets, r₁, s₁, s₂,
    Json.path_pair_eq_ok.mpr ⟨logs, hlogs, hentries⟩,
    Json.path_pair_eq_ok.mpr ⟨status, hstatus, hprocess⟩,
    Json.path_pair_eq_ok.mpr ⟨status', hstatus', hsockets⟩, hr₁, hs₁, hs₂, ?_⟩
  dsimp only at h
  split at h
  · next hpos =>
    obtain ⟨host, hhost, h⟩ := Json.read_bind_eq_ok.mp h
    cases h
    exact ⟨rfl, _, rfl, Or.inl ⟨host, hpos, hhost, rfl⟩⟩
  · next hzero =>
    cases h
    exact ⟨rfl, _, rfl, Or.inr ⟨hzero, rfl⟩⟩

/-- The steps of a service, by the paths of its loops. -/
theorem serviceSteps_eq {service : String × Json} {entries process sockets : Json}
    (hentries : service.2.path ["logs", "entries"] = .ok entries)
    (hprocess : service.2.path ["status", "process"] = .ok process)
    (hsockets : service.2.path ["status", "sockets"] = .ok sockets) :
    serviceSteps service = .ok (.lookup service :: (entries.elements.map .log ++ .sendLog ::
      (process.elements.map .process ++ (sockets.elements.map .socket ++
        [.sendService service, .updateType, .history])))) := by
  obtain ⟨logs, hlogs, hentries⟩ := Json.path_pair_eq_ok.mp hentries
  obtain ⟨status, hstatus, hprocess⟩ := Json.path_pair_eq_ok.mp hprocess
  obtain ⟨status', hstatus', hsockets⟩ := Json.path_pair_eq_ok.mp hsockets
  rw [hstatus] at hstatus'
  cases hstatus'
  simp only [serviceSteps, hlogs, hentries, hstatus, hprocess, hsockets, ok_bind, pure_eq_ok]

theorem runSteps_afterLookup {service : String × Json} {r : Round} {hosts : List ℕ}
    (hl : l.Fresh) (h : afterLookup col carried fp service (l, t) = .ok (r, hosts)) :
    ∃ steps l', serviceSteps service = .ok (.lookup service :: steps) ∧
      runSteps col carried fp l t steps = .ok (l', r.tables) ∧
      l'.round r.tables = r ∧ l'.hosts = hosts ∧ l.hosts = hosts := by
  obtain ⟨entries, process, sockets, r₁, s₁, s₂, hentries, hprocess, hsockets, hr₁, hs₁, hs₂, rfl,
    alerts, rfl, halerts⟩ := afterLookup_cases h
  obtain ⟨text, maxlvl, hfirst⟩ := runSteps_logs fp ⟨hl.text, hl.maxlvl⟩ hr₁
  let l₁ : Locals :=
    { l with sent := r₁.sent, alerts := r₁.alerts, text := text, maxlvl := maxlvl }
  have hsecond : runSteps col carried fp l₁ r₁.tables
      (process.elements.map .process ++ sockets.elements.map .socket) = .ok (l₁.ofStatusScan s₂) :=
    runSteps_status ⟨hl.failed, hl.nfailed, hl.ok⟩ hs₁ hs₂
  let l₂ : Locals := (l₁.ofStatusScan s₂).1
  -- the alert is sent, or there is none
  have halert : (Step.sendService service).exec col carried fp l₂ s₂.round.tables =
      .ok ({ l₂ with alerts := alerts }, s₂.round.tables) := by
    rcases halerts with ⟨host, hpos, hhost, rfl⟩ | ⟨hzero, rfl⟩
    · obtain ⟨hostJson, hhostJson, hhost⟩ := bind_eq_ok.mp hhost
      have hpos' : 0 < l₂.nfailed := hpos
      rw [Step.exec, if_pos hpos', hhostJson, ok_bind, hhost]
      rfl
    · have hzero' : ¬ 0 < l₂.nfailed := hzero
      rw [Step.exec, if_neg hzero']
      rfl
  have hthird := runSteps_closeService halert
  let components : List Step := process.elements.map Step.process ++ sockets.elements.map Step.socket
  let steps : List Step := entries.elements.map Step.log ++ [Step.sendLog] ++
    (components ++ [Step.sendService service, Step.updateType, Step.history])
  refine ⟨steps, (l₂.ofRound (closeService carried fp l₂ s₂.round.tables alerts)).1, ?_, ?_, rfl,
    rfl, rfl⟩
  · rw [serviceSteps_eq hentries hprocess hsockets]
    simp only [steps, components, List.append_assoc, List.singleton_append]
  · exact runSteps_append_eq_ok.mpr ⟨_, hfirst, runSteps_append_eq_ok.mpr ⟨_, hsecond, hthird⟩⟩

theorem runSteps_service {service : String × Json} {r : Round} {hosts : List ℕ}
    (h : collectService col carried fp (l.round t, l.hosts) service = .ok (r, hosts)) :
    ∃ steps l', serviceSteps service = .ok steps ∧
      runSteps col carried fp l t steps = .ok (l', r.tables) ∧
      l'.round r.tables = r ∧ l'.hosts = hosts ∧ hosts.length = l.hosts.length + 1 := by
  rw [collectService_eq] at h
  obtain ⟨m, hm, h⟩ := bind_eq_ok.mp h
  obtain ⟨hfresh, hlength, -⟩ := lookupService_fresh hm
  obtain ⟨steps, l', hsteps, hrun, hround, hhosts, hkept⟩ := runSteps_afterLookup hfresh h
  rw [hkept] at hlength
  exact ⟨_, l', hsteps, runSteps_cons_eq_ok.mpr ⟨m, hm, hrun⟩, hround, hhosts, hlength⟩

/-! ### The loop over the services -/

theorem runSteps_services {services : List (String × Json)} {r : Round} {hosts : List ℕ}
    (h : services.foldlM (collectService col carried fp) (l.round t, l.hosts) = .ok (r, hosts))
    (before : List Step) :
    ∃ steps l', services.foldlM (fun steps service => return steps ++ (← serviceSteps service))
        before = .ok (before ++ steps) ∧
      runSteps col carried fp l t steps = .ok (l', r.tables) ∧
      l'.round r.tables = r ∧ l'.hosts = hosts ∧
      hosts.length = l.hosts.length + services.length := by
  induction services generalizing l t before with
  | nil =>
      cases h
      exact ⟨[], l, by simp, rfl, rfl, rfl, rfl⟩
  | cons service services ih =>
      obtain ⟨⟨m, seen⟩, hm, h⟩ := foldlM_cons_eq_ok.mp h
      obtain ⟨first, l₁, hfirst, hrun, hround, hhosts, hlength⟩ := runSteps_service hm
      rw [← hround, ← hhosts] at h
      obtain ⟨steps, l', hsteps, hrest, hround', hhosts', hlength'⟩ := ih h (before ++ first)
      refine ⟨first ++ steps, l', ?_, runSteps_append_eq_ok.mpr ⟨_, hrun, hrest⟩, hround', hhosts',
        ?_⟩
      · apply foldlM_cons_eq_ok.mpr
        exact ⟨before ++ first, by rw [hfirst]; rfl, by rw [hsteps, List.append_assoc]⟩
      · rw [hlength', hhosts, hlength, List.length_cons]
        omega

/-! ### The missing services -/

theorem runSteps_missing (col : Collation) (carried : ℕ → Bool) (fp : ℚ) (l : Locals)
    (t : ServiceTables) {n : ℕ} (h : l.hosts.length ≤ n) :
    ∃ l' t', runSteps col carried fp l t (List.replicate n .missing) = .ok (l', t') ∧
      l'.round t' = l.hosts.foldl
        (fun r hostId => r.exec carried fun t => t.insertMissing hostId fp) (l.round t) := by
  induction n generalizing l t with
  | zero =>
      rw [List.eq_nil_of_length_eq_zero (Nat.le_zero.mp h)]
      exact ⟨l, t, rfl, rfl⟩
  | succ n ih =>
      rw [List.replicate_succ]
      cases hhosts : l.hosts with
      | nil =>
          have hexec : Step.missing.exec col carried fp l t = .ok (l, t) := by
            rw [Step.exec, hhosts]
          obtain ⟨l', t', hrun, hround⟩ := ih l t (by rw [hhosts]; exact Nat.zero_le n)
          rw [hhosts] at hround
          exact ⟨l', t', runSteps_cons_eq_ok.mpr ⟨_, hexec, hrun⟩, hround⟩
      | cons hostId hosts =>
          let m := ({ l with hosts := hosts } : Locals).ofRound
            ((l.round t).exec carried fun t => t.insertMissing hostId fp)
          have hexec : Step.missing.exec col carried fp l t = .ok m := by
            rw [Step.exec, hhosts]
          rw [hhosts] at h
          obtain ⟨l', t', hrun, hround⟩ := ih m.1 m.2 (Nat.le_of_succ_le_succ h)
          exact ⟨l', t', runSteps_cons_eq_ok.mpr ⟨m, hexec, hrun⟩, hround⟩

/-- `collect` does what the steps of its round do without interruption. -/
theorem collect_uninterrupted {answers : ℕ → Answer} {reply : Json} {agent : AgentClient}
    {db : Database} {res : Collected}
    (h : collect col carried answers fp (some reply) true agent t db = .ok res) :
    ∃ services steps l', reply.member "services" = .ok services ∧
      roundSteps services.entries = .ok steps ∧
      runSteps col carried fp .start t steps = .ok (l', res.round.tables) ∧
      l'.round res.round.tables = res.round := by
  obtain ⟨timestamp, -, h⟩ := bind_eq_ok.mp h
  obtain ⟨since, -, h⟩ := bind_eq_ok.mp h
  obtain ⟨services, hservices, h⟩ := bind_eq_ok.mp h
  obtain ⟨⟨r, hosts⟩, hloop, h⟩ := bind_eq_ok.mp h
  obtain ⟨⟨ressources, s⟩, -, h⟩ := bind_eq_ok.mp h
  cases h
  obtain ⟨first, l₁, hfirst, hrun, hround, hhosts, hlength⟩ :=
    runSteps_services (l := .start) hloop []
  let known := hosts.dedup.insertionSort (· ≤ ·)
  have hknown : known.length ≤ services.entries.length := by
    calc known.length = hosts.dedup.length := List.length_insertionSort _ _
      _ ≤ hosts.length := (List.dedup_sublist hosts).length_le
      _ = services.entries.length := by rw [hlength]; exact Nat.zero_add _
  obtain ⟨l', t', hmissing, hround'⟩ :=
    runSteps_missing col carried fp { l₁ with hosts := known } r.tables hknown
  have hres : l'.round t' = collectMissing carried fp hosts r := by
    rw [hround', collectMissing, ← hround]
    rfl
  have htables : t' = (collectMissing carried fp hosts r).tables := congrArg Round.tables hres
  subst htables
  refine ⟨services, first ++ .known :: List.replicate services.entries.length .missing, l',
    hservices, ?_, ?_, hres⟩
  · rw [roundSteps, hfirst]
    rfl
  · apply runSteps_append_eq_ok.mpr
    refine ⟨_, hrun, runSteps_cons_eq_ok.mpr ⟨({ l₁ with hosts := known }, r.tables), ?_, hmissing⟩⟩
    rw [Step.exec, hhosts]

end uninterrupted

/-! ### A round among others -/

namespace Rounds

variable {col : Collation} {r : Rounds} {agent : ℕ}

/-- The steps of one agent alone. -/
theorem run_steps {fp : ℚ} {services : List (String × Json)} {l l' : Locals} {t' : ServiceTables}
    {steps : List Step} (hthread : r.threads agent = ⟨fp, services, l, steps⟩)
    (h : runSteps col (fun _ => true) fp l r.tables steps = .ok (l', t')) :
    ∃ r', r.run col (List.replicate steps.length (.step agent)) = .ok r' ∧ r'.tables = t' := by
  induction steps generalizing r l with
  | nil =>
      cases h
      exact ⟨r, rfl, rfl⟩
  | cons step steps ih =>
      obtain ⟨m, hm, h⟩ := runSteps_cons_eq_ok.mp h
      let r₁ : Rounds := { r with
        tables := m.2
        threads := Function.update r.threads agent ⟨fp, services, m.1, steps⟩
        said := r.said ++ r.nextMissing agent }
      have hmove : r.move col (.step agent) = .ok r₁ := by
        rw [Rounds.move]
        simp only [hthread, hm, ok_bind, pure_eq_ok, r₁]
      obtain ⟨r', hrun, htables⟩ := ih (r := r₁) (Function.update_self _ _ _) h
      rw [List.length_cons, List.replicate_succ]
      exact ⟨r', foldlM_cons_eq_ok.mpr ⟨r₁, hmove, hrun⟩, htables⟩

/-- A call of `collect` is a round that no other agent interrupts. -/
theorem run_collect {answers : ℕ → Answer} {fp : ℚ} {reply : Json} {client : AgentClient}
    {db : Database} {res : Collected} (hidle : (r.threads agent).steps = [])
    (h : collect col (fun _ => true) answers fp (some reply) true client r.tables db = .ok res) :
    ∃ n r', r.run col (.collect agent fp reply :: List.replicate n (.step agent)) = .ok r' ∧
      r'.tables = res.round.tables := by
  obtain ⟨services, steps, l', hservices, hsteps, hrun, -⟩ := collect_uninterrupted h
  let r₁ : Rounds := { r with
    threads := Function.update r.threads agent ⟨fp, services.entries, .start, steps⟩
    reported := Function.update r.reported agent
      (r.reported agent ++ reportedNames services.entries) }
  have hmove : r.move col (.collect agent fp reply) = .ok r₁ := by
    rw [Rounds.move, hidle]
    simp only [List.isEmpty_nil, if_true, hservices, hsteps, ok_bind, pure_eq_ok, r₁]
  obtain ⟨r', hrest, htables⟩ := run_steps (r := r₁) (Function.update_self _ _ _) hrun
  exact ⟨steps.length, r', foldlM_cons_eq_ok.mpr ⟨r₁, hmove, hrest⟩, htables⟩

end Rounds

end WatchedBack
