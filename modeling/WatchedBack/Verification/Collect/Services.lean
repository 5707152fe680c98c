import WatchedBack.Verification.Collect.Logs
import WatchedBack.Verification.Events.Faults

/-! # One service of a reply -/

namespace WatchedBack

open Fallible

namespace Json

/-- What a loop over the value at the end of a path visits. -/
def elementsAt (v : Json) (keys : List String) : List Json :=
  match v.path keys with
  | .ok w => w.elements
  | .error _ => []

/-- The status of a process or a socket. -/
def statusOk (p : Json) : Bool :=
  match p.member "status" >>= asString with
  | .ok status => status = "ok"
  | .error _ => false

variable {v w : Json} {p q : String} {keys : List String}

@[simp] theorem path_nil : v.path [] = .ok v := rfl

theorem path_cons : v.path (p :: keys) = v.member p >>= fun w => w.path keys := rfl

theorem path_singleton : v.path [p] = v.member p := by
  rw [path_cons]
  cases v.member p <;> rfl

theorem path_pair_eq_ok : v.path [p, q] = .ok w ↔ ∃ a, v.member p = .ok a ∧ a.member q = .ok w := by
  rw [path_cons, bind_eq_ok]
  simp only [path_singleton]

theorem path_triple_eq_ok {r : String} : v.path [p, q, r] = .ok w ↔
    ∃ a, v.member p = .ok a ∧ ∃ b, a.member q = .ok b ∧ b.member r = .ok w := by
  rw [path_cons, bind_eq_ok]
  simp only [path_pair_eq_ok]

/-- Where one member can be read, so can any other. -/
theorem member_of_member (h : v.member p = .ok w) (q : String) : ∃ a, v.member q = .ok a :=
  member_succeeds_iff.mpr (member_succeeds_iff.mp ⟨w, h⟩)

theorem elementsAt_of_path (h : v.path keys = .ok w) : v.elementsAt keys = w.elements := by
  rw [elementsAt, h]

theorem statusOk_of_read {status : String} (h : v.member "status" >>= asString = .ok status) :
    v.statusOk = decide (status = "ok") := by
  rw [statusOk, h]

end Json

/-! ### Processes and sockets -/

/-- A process of the types that `collect` reads. -/
structure ProcessOk (p : Json) : Prop where
  name : Succeeds (p.member "name" >>= Json.asCString)
  fullPath : Succeeds (p.member "full_path" >>= Json.asCString)
  cwd : Succeeds (p.member "cwd" >>= Json.asCString)
  username : Succeeds (p.member "username" >>= Json.asCString)
  status : Succeeds (p.member "status" >>= Json.asCString)
  pid : p.statusOk = true → Succeeds (p.member "pid" >>= Json.asInt)

/-- A socket of the types that `collect` reads. -/
structure SocketOk (p : Json) : Prop where
  name : Succeeds (p.member "name" >>= Json.asCString)
  status : Succeeds (p.member "status" >>= Json.asCString)

section components

variable {col : Collation} {carried : ℕ → Bool} {fp : ℚ} {servId : ℕ} {s s' : StatusScan}
  {p : Json}

theorem collectProcess_of_processOk (h : ProcessOk p) :
    Succeeds (collectProcess col carried fp servId s p) := by
  obtain ⟨name, hname⟩ := h.name
  obtain ⟨path, hpath⟩ := h.fullPath
  obtain ⟨cwd, hcwd⟩ := h.cwd
  obtain ⟨user, huser⟩ := h.username
  obtain ⟨stts, hstts⟩ := h.status
  obtain ⟨shown, hshown⟩ := Json.succeeds_asString h.name
  obtain ⟨status, hstatus⟩ := Json.succeeds_asString h.status
  simp only [collectProcess, Json.read_bind hname, Json.read_bind hpath, Json.read_bind hcwd,
    Json.read_bind huser, Json.read_bind hstts, Json.read_bind hstatus]
  by_cases hok : status = "ok"
  · obtain ⟨pid, hpid⟩ := h.pid (by simp [Json.statusOk_of_read hstatus, hok])
    simp only [hok, if_true, Json.read_bind hpid]
    exact succeeds_ok _
  · simp only [hok, if_false, Json.read_bind hshown]
    exact succeeds_ok _

theorem collectSocket_of_socketOk (h : SocketOk p) :
    Succeeds (collectSocket col carried fp servId s p) := by
  obtain ⟨name, hname⟩ := h.name
  obtain ⟨stts, hstts⟩ := h.status
  obtain ⟨shown, hshown⟩ := Json.succeeds_asString h.name
  obtain ⟨status, hstatus⟩ := Json.succeeds_asString h.status
  simp only [collectSocket, Json.read_bind hstatus]
  by_cases hok : status = "ok"
  · simp only [hok, if_true, pure_eq_ok, ok_bind, Json.read_bind hname, Json.read_bind hstts]
    exact succeeds_ok _
  · simp only [hok, if_false, Json.read_bind hshown, pure_eq_ok, ok_bind, Json.read_bind hname,
      Json.read_bind hstts]
    exact succeeds_ok _

/-- Nothing is stored of any service: every entry is new, and so is every status. -/
structure Round.Empty (r : Round) : Prop where
  logEvents : r.tables.logEvents = []
  process : r.tables.process = []
  sockets : r.tables.sockets = []

/-- No statement is carried out. -/
def nothing : ℕ → Bool := fun _ => false

theorem Round.Empty.exec {r : Round} (h : r.Empty) (hc : carried = nothing)
    (stmt : ServiceTables → ServiceTables) : (r.exec carried stmt).Empty := by
  subst hc
  exact ⟨h.logEvents, h.process, h.sockets⟩

/-- What an iteration over processes or sockets says of its component: one that is not well
is newly failed if nothing is stored. -/
structure Counted (carried : ℕ → Bool) (s : StatusScan) (p : Json) (s' : StatusScan) : Prop where
  empty : carried = nothing → s.round.Empty → s'.round.Empty
  ok : p.statusOk = true → s'.nfailed = s.nfailed
  failed : p.statusOk = false → s.round.Empty → s'.nfailed = s.nfailed + 1

theorem collectProcess_counted (h : collectProcess col carried fp servId s p = .ok s') :
    ProcessOk p ∧ Counted carried s p s' := by
  simp only [collectProcess, Json.read_bind_eq_ok] at h
  obtain ⟨name, hname, path, hpath, cwd, hcwd, user, huser, stts, hstts, status, hstatus, h⟩ := h
  have hok := Json.statusOk_of_read hstatus
  have hp (hpid : p.statusOk = true → Succeeds (p.member "pid" >>= Json.asInt)) : ProcessOk p :=
    ⟨⟨name, hname⟩, ⟨path, hpath⟩, ⟨cwd, hcwd⟩, ⟨user, huser⟩, ⟨stts, hstts⟩, hpid⟩
  split at h
  · next heq =>
    obtain ⟨pid, hpid, h⟩ := Json.read_bind_eq_ok.mp h
    cases h
    refine ⟨hp fun _ => ⟨pid, hpid⟩, fun hc he => ?_, fun _ => rfl, fun hf => ?_⟩
    · dsimp only
      exact he.exec hc _
    · simp [hok, heq] at hf
  · next hne =>
    simp only [Json.read_bind_eq_ok] at h
    obtain ⟨shown, -, known, -, h⟩ := h
    cases h
    refine ⟨hp fun ht => ?_, fun hc he => ?_, fun ht => ?_, fun _ he => ?_⟩
    · simp [hok, hne] at ht
    · dsimp only
      exact he.exec hc _
    · simp [hok, hne] at ht
    · simp [ServiceTables.haveProcessStatus, he.process]

theorem collectSocket_counted (h : collectSocket col carried fp servId s p = .ok s') :
    SocketOk p ∧ Counted carried s p s' := by
  simp only [collectSocket, Json.read_bind_eq_ok] at h
  obtain ⟨status, hstatus, h⟩ := h
  have hok := Json.statusOk_of_read hstatus
  split at h
  · next heq =>
    simp only [pure_eq_ok, ok_bind, Json.read_bind_eq_ok] at h
    obtain ⟨name, hname, stts, hstts, h⟩ := h
    cases h
    refine ⟨⟨⟨name, hname⟩, ⟨stts, hstts⟩⟩, fun hc he => ?_, fun _ => rfl, fun hf => ?_⟩
    · dsimp only
      exact he.exec hc _
    · simp [hok, heq] at hf
  · next hne =>
    simp only [pure_eq_ok, ok_bind, Json.read_bind_eq_ok] at h
    obtain ⟨shown, -, known, -, name, hname, stts, hstts, h⟩ := h
    cases h
    refine ⟨⟨⟨name, hname⟩, ⟨stts, hstts⟩⟩, fun hc he => ?_, fun ht => ?_, fun _ he => ?_⟩
    · dsimp only
      exact he.exec hc _
    · simp [hok, hne] at ht
    · simp [ServiceTables.haveSocketStatus, he.sockets]

/-- Every process is stored. -/
theorem collectProcess_round (h : collectProcess col carried fp servId s p = .ok s') :
    ∃ row, s'.round = s.round.exec carried fun t => t.insertProcess col row := by
  simp only [collectProcess, Json.read_bind_eq_ok] at h
  obtain ⟨name, -, path, -, cwd, -, user, -, stts, -, status, -, h⟩ := h
  split at h
  · obtain ⟨pid, -, h⟩ := Json.read_bind_eq_ok.mp h
    cases h
    exact ⟨_, rfl⟩
  · simp only [Json.read_bind_eq_ok] at h
    obtain ⟨shown, -, known, -, h⟩ := h
    cases h
    exact ⟨_, rfl⟩

/-- Every socket is stored. -/
theorem collectSocket_round (h : collectSocket col carried fp servId s p = .ok s') :
    ∃ row, s'.round = s.round.exec carried fun t => t.insertSocket col row := by
  simp only [collectSocket, Json.read_bind_eq_ok] at h
  obtain ⟨status, -, h⟩ := h
  split at h
  · simp only [pure_eq_ok, ok_bind, Json.read_bind_eq_ok] at h
    obtain ⟨name, -, stts, -, h⟩ := h
    cases h
    exact ⟨_, rfl⟩
  · simp only [pure_eq_ok, ok_bind, Json.read_bind_eq_ok] at h
    obtain ⟨shown, -, known, -, name, -, stts, -, h⟩ := h
    cases h
    exact ⟨_, rfl⟩

section loops

variable {f : StatusScan → Json → Except Fault StatusScan} {Ok : Json → Prop} {ps : List Json}

/-- Where every component is well, none is counted as newly failed. -/
theorem nfailed_of_statusOk
    (hstep : ∀ s s' p, f s p = .ok s' → Ok p ∧ Counted carried s p s')
    (hok : ∀ p ∈ ps, p.statusOk = true) (h : ps.foldlM f s = .ok s') : s'.nfailed = s.nfailed :=
  foldlM_invariant (fun t => t.nfailed = s.nfailed)
    (fun t t' p hp ht hf => ((hstep t t' p hf).2.ok (hok p hp)).trans ht) rfl h

/-- A loop over components that are all new. -/
theorem nfailed_of_nothing
    (hstep : ∀ s s' p, f s p = .ok s' → Ok p ∧ Counted nothing s p s')
    (he : s.round.Empty) (h : ps.foldlM f s = .ok s') :
    s'.round.Empty ∧ (∀ p ∈ ps, Ok p) ∧
      s'.nfailed = s.nfailed + ps.countP fun p => !p.statusOk := by
  induction ps generalizing s with
  | nil =>
      cases h
      exact ⟨he, by simp, rfl⟩
  | cons p ps ih =>
      obtain ⟨m, hm, hrest⟩ := foldlM_cons_eq_ok.mp h
      obtain ⟨hp, hempty, hwell, hfailed⟩ := hstep s m p hm
      obtain ⟨he', hps, hn⟩ := ih (hempty rfl he) hrest
      refine ⟨he', List.forall_mem_cons.mpr ⟨hp, hps⟩, ?_⟩
      rw [hn, List.countP_cons]
      cases hok : p.statusOk with
      | true => simp [hwell hok]
      | false =>
          simp only [hfailed hok he, Bool.not_false, if_true]
          omega

end loops

end components

/-! ### Log entries -/

section logs

variable {col : Collation} {carried : ℕ → Bool} {hostId servId : ℕ} {r r' : Round}
  {entries : List Json}

theorem collectLogs_of_logOk (h : ∀ entry ∈ entries, LogOk entry) :
    Succeeds (collectLogs col carried hostId servId r entries) := by
  refine succeeds_bind_of
    (succeeds_foldlM (fun s entry hentry => collectLog_of_logOk (h entry hentry)) _) fun s _ => ?_
  split <;> exact succeeds_ok _

theorem collectLogs_nothing (h : collectLogs col nothing hostId servId r entries = .ok r')
    (he : r.Empty) :
    r'.Empty ∧ ∀ entry ∈ entries, LogOk entry := by
  obtain ⟨s, hs, h⟩ := bind_eq_ok.mp h
  have hloop : s.round.Empty ∧ ∀ entry ∈ entries, LogOk entry := by
    refine foldlM_forall (fun t => t.round.Empty) LogOk (fun t t' entry _ ht hf => ?_) he hs
    rcases collectLog_cases hf with ⟨hold, -⟩ | ⟨-, hok, level, line, row, -, rfl⟩
    · rw [LogScan.isNew_of_empty ht.logEvents hf] at hold
      cases hold
    · exact ⟨⟨ht.logEvents, ht.process, ht.sockets⟩, hok⟩
  split at h
  · cases h
    exact ⟨⟨hloop.1.logEvents, hloop.1.process, hloop.1.sockets⟩, hloop.2⟩
  · cases h
    exact hloop

end logs

/-! ### A service -/

/-- A service of the types that `collect` reads. Its own `host` is only read when a process
or a socket is not well. -/
structure ServiceOk (v : Json) : Prop where
  logsHost : Succeeds (v.path ["logs", "host"] >>= Json.asString)
  type : Succeeds (v.path ["status", "properties", "type"] >>= Json.asString)
  logs : ∀ entry ∈ v.elementsAt ["logs", "entries"], LogOk entry
  process : ∀ p ∈ v.elementsAt ["status", "process"], ProcessOk p
  sockets : ∀ p ∈ v.elementsAt ["status", "sockets"], SocketOk p
  host : (∃ p ∈ v.elementsAt ["status", "process"] ++ v.elementsAt ["status", "sockets"],
    p.statusOk = false) → Succeeds (v.member "host" >>= Json.asString)

section service

variable {col : Collation} {carried : ℕ → Bool} {fp : ℚ} {acc acc' : Round × List ℕ} {name : String}
  {v : Json}

/-- A service whose `host` cannot be read has no component that is not well. -/
theorem ServiceOk.statusOk (hv : ServiceOk v)
    (h : ¬ Succeeds (v.member "host" >>= Json.asString)) :
    (∀ p ∈ v.elementsAt ["status", "process"], p.statusOk = true) ∧
      ∀ p ∈ v.elementsAt ["status", "sockets"], p.statusOk = true := by
  rw [← List.forall_mem_append]
  intro p hp
  by_contra hne
  exact h (hv.host ⟨p, hp, by simpa using hne⟩)

/-- A service of the right types is handled in every state. -/
theorem collectService_of_serviceOk (h : ServiceOk v) :
    Succeeds (collectService col carried fp acc (name, v)) := by
  obtain ⟨host, hhost⟩ := h.logsHost
  obtain ⟨hostv, hpath, hhost⟩ := bind_eq_ok.mp hhost
  obtain ⟨logs, hlogs, hhostv⟩ := Json.path_pair_eq_ok.mp hpath
  obtain ⟨type, htype⟩ := h.type
  obtain ⟨typev, hpath, htype⟩ := bind_eq_ok.mp htype
  obtain ⟨status, hstatus, props, hprops, htypev⟩ := Json.path_triple_eq_ok.mp hpath
  obtain ⟨entries, hentries⟩ := Json.member_of_member hhostv "entries"
  obtain ⟨process, hprocess⟩ := Json.member_of_member hprops "process"
  obtain ⟨sockets, hsockets⟩ := Json.member_of_member hprops "sockets"
  have hl := Json.elementsAt_of_path (Json.path_pair_eq_ok.mpr ⟨logs, hlogs, hentries⟩)
  have hp := Json.elementsAt_of_path (Json.path_pair_eq_ok.mpr ⟨status, hstatus, hprocess⟩)
  have hs := Json.elementsAt_of_path (Json.path_pair_eq_ok.mpr ⟨status, hstatus, hsockets⟩)
  simp only [collectService, collectServiceWith, hlogs, hhostv, hhost, hstatus, hprops, htypev, htype,
    hentries, hprocess, hsockets, ok_bind]
  refine succeeds_bind_of (collectLogs_of_logOk (hl ▸ h.logs)) fun r _ => ?_
  refine succeeds_bind_of (succeeds_foldlM (fun s p hmem =>
    collectProcess_of_processOk (h.process p (hp ▸ hmem))) _) fun s₁ h₁ => ?_
  refine succeeds_bind_of (succeeds_foldlM (fun s p hmem =>
    collectSocket_of_socketOk (h.sockets p (hs ▸ hmem))) _) fun s₂ h₂ => ?_
  by_cases hhost : Succeeds (v.member "host" >>= Json.asString)
  · obtain ⟨shown, hshown⟩ := hhost
    split
    · simp only [Json.read_bind hshown, pure_eq_ok]
      exact succeeds_ok _
    · exact succeeds_ok _
  · have hn : s₂.nfailed = 0 :=
      (nfailed_of_statusOk (fun _ _ _ => collectSocket_counted) (hs ▸ (h.statusOk hhost).2) h₂).trans
        (nfailed_of_statusOk (fun _ _ _ => collectProcess_counted) (hp ▸ (h.statusOk hhost).1) h₁)
    simp only [hn, lt_irrefl, if_false, pure_eq_ok, ok_bind]
    exact succeeds_ok _

/-- Where nothing is stored, only a service of the right types is handled. -/
theorem collectService_nothing (he : acc.1.Empty)
    (h : collectService col nothing fp acc (name, v) = .ok acc') : acc'.1.Empty ∧ ServiceOk v := by
  simp only [collectService, collectServiceWith] at h
  obtain ⟨logs, hlogs, h⟩ := bind_eq_ok.mp h
  obtain ⟨hostv, hhostv, h⟩ := bind_eq_ok.mp h
  obtain ⟨host, hhost, h⟩ := bind_eq_ok.mp h
  obtain ⟨status, hstatus, h⟩ := bind_eq_ok.mp h
  obtain ⟨props, hprops, h⟩ := bind_eq_ok.mp h
  obtain ⟨typev, htypev, h⟩ := bind_eq_ok.mp h
  obtain ⟨type, htype, h⟩ := bind_eq_ok.mp h
  simp only [hlogs, hstatus, ok_bind] at h
  obtain ⟨entries, hentries, h⟩ := bind_eq_ok.mp h
  obtain ⟨r, hr, h⟩ := bind_eq_ok.mp h
  obtain ⟨process, hprocess, h⟩ := bind_eq_ok.mp h
  obtain ⟨s₁, h₁, h⟩ := bind_eq_ok.mp h
  obtain ⟨sockets, hsockets, h⟩ := bind_eq_ok.mp h
  obtain ⟨s₂, h₂, h⟩ := bind_eq_ok.mp h
  have hl := Json.elementsAt_of_path (Json.path_pair_eq_ok.mpr ⟨logs, hlogs, hentries⟩)
  have hp := Json.elementsAt_of_path (Json.path_pair_eq_ok.mpr ⟨status, hstatus, hprocess⟩)
  have hs := Json.elementsAt_of_path (Json.path_pair_eq_ok.mpr ⟨status, hstatus, hsockets⟩)
  obtain ⟨her, hlogsOk⟩ := collectLogs_nothing hr ⟨he.logEvents, he.process, he.sockets⟩
  obtain ⟨he₁, hps, hn₁⟩ := nfailed_of_nothing (fun _ _ _ => collectProcess_counted) her h₁
  obtain ⟨he₂, hss, hn₂⟩ := nfailed_of_nothing (fun _ _ _ => collectSocket_counted) he₁ h₂
  have hv (hshown : 0 < s₂.nfailed → Succeeds (v.member "host" >>= Json.asString)) : ServiceOk v := by
    refine ⟨⟨host, bind_eq_ok.mpr ⟨hostv, Json.path_pair_eq_ok.mpr ⟨logs, hlogs, hhostv⟩, hhost⟩⟩,
      ⟨type, bind_eq_ok.mpr ⟨typev, Json.path_triple_eq_ok.mpr
        ⟨status, hstatus, props, hprops, htypev⟩, htype⟩⟩, hl ▸ hlogsOk, hp ▸ hps, hs ▸ hss, ?_⟩
    rintro ⟨p, hmem, hfailed⟩
    apply hshown
    rw [hn₂, hn₁, ← hp, ← hs, Nat.add_assoc, ← List.countP_append]
    exact Nat.add_pos_right _ (List.countP_pos_iff.mpr ⟨p, hmem, by simp [hfailed]⟩)
  split at h
  · next hpos =>
    obtain ⟨shown, hshown, h⟩ := Json.read_bind_eq_ok.mp h
    cases h
    exact ⟨⟨he₂.logEvents, he₂.process, he₂.sockets⟩, hv fun _ => ⟨shown, hshown⟩⟩
  · next hnpos =>
    cases h
    exact ⟨⟨he₂.logEvents, he₂.process, he₂.sockets⟩, hv fun hpos => absurd hpos hnpos⟩

end service

end WatchedBack
