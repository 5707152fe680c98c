import WatchedBack.Verification.Collect.Reply
import WatchedBack.Verification.Replies.Reports
import WatchedBack.Verification.Rounds.Kept
import WatchedBack.Verification.Rounds.Uninterrupted
import WatchedBack.Model.Replies

/-! # What replies do to the tables

Every service of a reply is a report. What a sequence of reports does to the tables, and which
alerts it raises, composes. -/

namespace WatchedBack

open Fallible Reports

/-! ### Reports -/

/-- A service of a reply, with the ids under which it is known. -/
structure ServiceReport where
  hostId : ℕ
  servId : ℕ
  logsHost : String
  name : String
  host : String
  lines : List LogLine
  process : List ProcessRow
  sockets : List SocketRow

/-- The host of a service. -/
def logsHost (service : String × Json) : String :=
  ((service.2.path ["logs", "host"] >>= Json.asString).toOption).getD ""

namespace ServiceReport

def read (hostId servId : ℕ) (fp : ℚ) (service : String × Json) : ServiceReport where
  hostId := hostId
  servId := servId
  logsHost := WatchedBack.logsHost service
  name := service.1
  host := service.2.text "host"
  lines := (service.2.elementsAt ["logs", "entries"]).map (Json.logLine servId)
  process := (service.2.elementsAt ["status", "process"]).map (Json.processRow servId fp)
  sockets := (service.2.elementsAt ["status", "sockets"]).map (Json.socketRow servId fp)

variable (report : ServiceReport)

/-- The processes and the sockets, in the order of the loops. -/
def components : List Component :=
  report.process.map .process ++ report.sockets.map .socket

/-- The number of components that are not well. -/
def failed : ℕ := report.components.countP Component.failed

def ok : ℕ := report.components.countP fun c => !c.failed

def message : String :=
  "Service " ++ report.name ++ " on " ++ report.host ++ " have " ++ toString report.failed ++
    " failed componant"

/-- Some component has failed, and its status is not that of the last report of it, or, before
the first one, not a stored one. -/
def Announces (col : Collation) (t : ServiceTables) (seen : List Component) : Prop :=
  ∃ before c after, report.components = before ++ c :: after ∧ c.status ≠ "ok" ∧
    match (Component.likeness col).last (seen ++ before) c with
    | some last => col.same last.status c.status = false
    | none => t.holds col c = false

variable {report}

theorem announces_iff {col : Collation} {t : ServiceTables} {seen : List Component} :
    report.Announces col t seen ↔ Component.news col t seen report.components ≠ [] := by
  have hrings (before : List Component) (c : Component) :
      Component.rings col t ((Component.likeness col).last (seen ++ before) c) c = true ↔
        c.status ≠ "ok" ∧ match (Component.likeness col).last (seen ++ before) c with
          | some last => col.same last.status c.status = false
          | none => t.holds col c = false := by
    cases (Component.likeness col).last (seen ++ before) c with
    | some last => simp [Component.rings, Component.failed]
    | none => simp [Component.rings, Component.failed]
  constructor
  · rintro ⟨before, c, after, heq, h⟩
    have hmem : c ∈ Component.news col t seen report.components :=
      Likeness.mem_alarms.mpr ⟨before, after, heq, (hrings before c).mpr h⟩
    exact List.ne_nil_of_mem hmem
  · intro h
    obtain ⟨c, hc⟩ := List.exists_mem_of_ne_nil _ h
    obtain ⟨before, after, heq, hring⟩ := Likeness.mem_alarms.mp hc
    exact ⟨before, c, after, heq, (hrings before c).mp hring⟩

instance (col : Collation) (t : ServiceTables) (seen : List Component) :
    Decidable (report.Announces col t seen) := decidable_of_iff _ announces_iff.symm

end ServiceReport

/-! ### A service -/

section service

variable {col : Collation} {fp : ℚ} {service : String × Json}

theorem holds_congr {t t' : ServiceTables} (hprocess : t'.process = t.process)
    (hsockets : t'.sockets = t.sockets) (c : Component) : t'.holds col c = t.holds col c := by
  cases c with
  | process row => rw [ServiceTables.holds, ServiceTables.haveProcessStatus, hprocess]; rfl
  | socket row => rw [ServiceTables.holds, ServiceTables.haveSocketStatus, hsockets]; rfl

theorem news_congr {t t' : ServiceTables} (hprocess : t'.process = t.process)
    (hsockets : t'.sockets = t.sockets) (seen cs : List Component) :
    Component.news col t' seen cs = Component.news col t seen cs := by
  apply Likeness.alarms_congr
  intro before c after _
  cases (Component.likeness col).last (seen ++ before) c with
  | some last => rfl
  | none => rw [Component.rings, Component.rings, holds_congr hprocess hsockets]

/-- The loop over log entries of the right types, and its alert. -/
theorem collectLogs_report {hostId servId : ℕ} {r r' : Round} {entries : List Json}
    (hv : ∀ entry ∈ entries, LogOk entry)
    (h : collectLogs col (fun _ => true) hostId servId r entries = .ok r') :
    ∃ s, Logged col ⟨r, "", 0⟩ (entries.map (Json.logLine servId)) s ∧
      r'.tables = s.round.tables ∧ r'.alerts = r.alerts ++
        (if 0 < s.maxlvl then [.log hostId servId s.maxlvl s.text] else []) := by
  obtain ⟨s, hscan, h⟩ := bind_eq_ok.mp h
  rw [foldlM_eq_ok_foldl (fun s entry => LogScan.take col s entry.1 entry.2)
    (fun entry => (entry.text "level", entry.logLine servId))
    (fun entry hentry s => collectLog_eq (hv entry hentry) s)] at hscan
  have hlogged := logged_foldl col ⟨r, "", 0⟩
    (entries.map fun entry => (entry.text "level", entry.logLine servId))
  rw [Except.ok.inj hscan, List.map_map] at hlogged
  have halerts : s.round.alerts = r.alerts := hlogged.alerts
  refine ⟨s, hlogged, ?_⟩
  split at h
  · next hpos =>
    cases h
    rw [if_pos hpos, halerts]
    exact ⟨rfl, rfl⟩
  · next hzero =>
    cases h
    rw [if_neg hzero, halerts, List.append_nil]
    exact ⟨rfl, rfl⟩

/-- The loops over processes and sockets of the right types. -/
theorem collectStatus_report {servId : ℕ} {s s₁ s₂ : StatusScan} {process sockets : List Json}
    (hp : ∀ p ∈ process, ProcessOk p) (hs : ∀ p ∈ sockets, SocketOk p)
    (h₁ : process.foldlM (collectProcess col (fun _ => true) fp servId) s = .ok s₁)
    (h₂ : sockets.foldlM (collectSocket col (fun _ => true) fp servId) s₁ = .ok s₂) :
    s₂ = (process.map (fun p => Component.process (p.processRow servId fp)) ++
      sockets.map (fun p => Component.socket (p.socketRow servId fp))).foldl
        (StatusScan.take col) s := by
  rw [foldlM_eq_ok_foldl (StatusScan.take col) (fun p => .process (p.processRow servId fp))
    (fun p hmem s => collectProcess_eq (hp p hmem) s)] at h₁
  rw [foldlM_eq_ok_foldl (StatusScan.take col) (fun p => .socket (p.socketRow servId fp))
    (fun p hmem s => collectSocket_eq (hs p hmem) s), ← Except.ok.inj h₁,
    ← List.foldl_append] at h₂
  exact (Except.ok.inj h₂).symm

/-- The iteration of a service of the right types, after its lookups. -/
theorem afterLookup_report {l : Locals} {t : ServiceTables} {r : Round} {hosts : List ℕ}
    (hv : ServiceOk service.2)
    (h : afterLookup col (fun _ => true) fp service (l, t) = .ok (r, hosts)) :
    let report := ServiceReport.read l.hostId l.servId fp service
    hosts = l.hosts ∧ ∃ s, Logged col ⟨l.round t, "", 0⟩ report.lines s ∧
      r.tables = ((report.components.foldl (Component.store col) s.round.tables).updateType
        l.servId l.typeId).insertHistory ⟨l.servId, fp, report.failed, 0, report.ok⟩ ∧
      r.alerts = l.alerts ++
        (if 0 < s.maxlvl then [.log l.hostId l.servId s.maxlvl s.text] else []) ++
        (if report.Announces col t [] then [.service l.hostId l.servId report.message] else []) := by
  intro report
  obtain ⟨entries, process, sockets, r₁, s₁, s₂, hentries, hprocess, hsockets, hr₁, hs₁, hs₂, rfl,
    calls, rfl, hcalls⟩ := afterLookup_cases h
  have hl := Json.elementsAt_of_path hentries
  have hp := Json.elementsAt_of_path hprocess
  have hs := Json.elementsAt_of_path hsockets
  have hlines : report.lines = entries.elements.map (Json.logLine l.servId) := by
    rw [← hl]
    rfl
  have hcomponents : report.components =
      process.elements.map (fun p => .process (p.processRow l.servId fp)) ++
        sockets.elements.map (fun p => .socket (p.socketRow l.servId fp)) := by
    rw [ServiceReport.components, ← hp, ← hs]
    simp only [report, ServiceReport.read, List.map_map]
    rfl
  -- the loops
  obtain ⟨s, hlogged, htables₁, halerts₁⟩ := collectLogs_report (hl ▸ hv.logs) hr₁
  rw [← hlines] at hlogged
  have hscan := collectStatus_report (hp ▸ hv.process) (hs ▸ hv.sockets) hs₁ hs₂
  rw [← hcomponents] at hscan
  obtain ⟨htables, halerts, hfailed, hok, hnfailed⟩ :=
    foldl_take col ⟨r₁, 0, 0, 0⟩ report.components
  rw [← hscan] at htables halerts hfailed hok hnfailed
  have hannounces : 0 < s₂.nfailed ↔ report.Announces col t [] := by
    have hprocess : s.round.tables.process = t.process := by rw [hlogged.frame]; rfl
    have hsockets : s.round.tables.sockets = t.sockets := by rw [hlogged.frame]; rfl
    rw [ServiceReport.announces_iff, hnfailed, Nat.zero_add, List.length_pos_iff,
      htables₁, news_congr hprocess hsockets]
  rw [htables₁] at htables
  rw [halerts₁] at halerts
  have hcounts : s₂.failed = report.failed ∧ s₂.ok = report.ok := by
    rw [hfailed, hok]
    exact ⟨Nat.zero_add _, Nat.zero_add _⟩
  have hrows : (s₂.round.tables.updateType l.servId l.typeId).insertHistory
      ⟨l.servId, fp, s₂.failed, 0, s₂.ok⟩ =
        ((report.components.foldl (Component.store col) s.round.tables).updateType
          l.servId l.typeId).insertHistory ⟨l.servId, fp, report.failed, 0, report.ok⟩ := by
    rw [htables, hcounts.1, hcounts.2]
  refine ⟨rfl, s, hlogged, hrows, ?_⟩
  -- the alert
  rcases hcalls with ⟨shown, hpos, hshown, rfl⟩ | ⟨hzero, rfl⟩
  · have htext : report.host = shown := by
      change ((service.2.member "host" >>= Json.asString).toOption).getD "" = shown
      rw [hshown]
      rfl
    rw [if_pos (hannounces.mp hpos), ServiceReport.message, htext, ← hcounts.1]
    change s₂.round.alerts ++ _ = _
    rw [halerts]
    rfl
  · rw [if_neg (fun hann => hzero (hannounces.mpr hann)), List.append_nil]
    exact halerts

end service

/-! ### Ids -/

namespace ServiceTables

/-- The id under which a host is known. -/
def findHost (t : ServiceTables) (col : Collation) (name : String) : Option ℕ :=
  (t.hosts.find? fun row => col.same row.name name).map NameRow.id

/-- What is known is so under the same id later. -/
structure Known (col : Collation) (t t' : ServiceTables) : Prop where
  host : ∀ name id, t.findHost col name = some id → t'.findHost col name = some id
  service : ∀ name id, t.findService col name = some id → t'.findService col name = some id

/-- The primary keys of hosts and services. -/
structure Keyed (t : ServiceTables) : Prop where
  hosts : (t.hosts.map NameRow.id).Nodup
  services : (t.services.map ServiceRow.id).Nodup

variable {col : Collation} {t t' t'' : ServiceTables}

@[refl] theorem Known.refl (t : ServiceTables) : t.Known col t := ⟨fun _ _ h => h, fun _ _ h => h⟩

@[trans] theorem Known.trans (h : t.Known col t') (h' : t'.Known col t'') : t.Known col t'' :=
  ⟨fun name id hf => h'.host name id (h.host name id hf),
    fun name id hf => h'.service name id (h.service name id hf)⟩

/-- Statements that keep the hosts. -/
theorem Later.known (h : t.Later col t') (hhosts : t'.hosts = t.hosts) : t.Known col t' := by
  refine ⟨fun name id hf => ?_, h.found⟩
  rw [findHost, hhosts]
  exact hf

theorem Known.ofHost (h : t.Known col t') {name : String} {id : ℕ}
    (hf : t.findHost col name = some id) : (t'.findHost col name).getD 0 = id := by
  rw [h.host name id hf]
  rfl

theorem Known.ofService (h : t.Known col t') {name : String × String} {id : ℕ}
    (hf : t.findService col name = some id) : (t'.findService col name).getD 0 = id := by
  rw [h.service name id hf]
  rfl

end ServiceTables

section lookups

variable {col : Collation} {service : String × Json} {l : Locals} {t : ServiceTables}
  {m : Locals × ServiceTables}

theorem nodup_append_nextId {α : Type} {idOf : α → ℕ} {rows : List α} {row : α}
    (h : (rows.map idOf).Nodup) (hrow : idOf row = nextId (rows.map idOf)) :
    ((rows ++ [row]).map idOf).Nodup := by
  rw [List.map_append, List.map_singleton, hrow]
  apply List.Nodup.append h (List.nodup_singleton _)
  intro id hid hid'
  rw [List.mem_singleton.mp hid'] at hid
  exact nextId_notMem _ hid

theorem getName_nodup (found : NameRow → Bool) (name : String) {rows : List NameRow}
    (h : (rows.map NameRow.id).Nodup) :
    ((getName found name (nextId (rows.map NameRow.id)) rows).1.map NameRow.id).Nodup := by
  dsimp only [getName]
  split
  · exact h
  · exact nodup_append_nextId h rfl

theorem getService_nodup (hostId : ℕ) (name : String) {rows : List ServiceRow}
    (h : (rows.map ServiceRow.id).Nodup) :
    ((getService col hostId name (nextId (rows.map ServiceRow.id)) rows).1.map
      ServiceRow.id).Nodup := by
  dsimp only [getService]
  split
  · exact h
  · exact nodup_append_nextId h rfl

/-- The lookups of a service. -/
theorem lookupService_report (h : lookupService col service l t = .ok m) (fp : ℚ) :
    let report := ServiceReport.read m.1.hostId m.1.servId fp service
    m.2 = { t with
      hosts := m.2.hosts
      services := m.2.services
      types := m.2.types } ∧
    m.1.alerts = l.alerts ∧ m.1.hosts = report.hostId :: l.hosts ∧ t.Known col m.2 ∧
      (t.Keyed → m.2.Keyed) ∧ m.2.findHost col report.logsHost = some report.hostId ∧
      m.2.findService col (report.logsHost, report.name) = some report.servId := by
  intro report
  obtain ⟨hlater, hfound⟩ := lookupService_spec h
  obtain ⟨host, type, hpath, rfl⟩ := lookupService_cases h
  have hlogsHost : report.logsHost = host := by
    change logsHost service = host
    rw [logsHost, hpath]
    rfl
  obtain ⟨hhosts, hhostId⟩ := getName_spec (fun row => col.same row.name host) host t.hosts
    (fun _ => col.refl host)
  refine ⟨rfl, rfl, rfl, ⟨fun name id hf => ?_, hlater.found⟩, fun hk => ?_, ?_, ?_⟩
  · obtain ⟨row, hrow, rfl⟩ := Option.map_eq_some_iff.mp hf
    exact congrArg (Option.map NameRow.id) (hhosts.find?_eq_some hrow)
  · exact ⟨getName_nodup _ host hk.hosts, getService_nodup _ service.1 hk.services⟩
  · rw [hlogsHost]
    exact hhostId
  · rw [hlogsHost]
    apply hfound
    rw [reportedName, hpath]
    rfl

end lookups

/-! ### Outcomes -/

/-- A call of `sendLog`: the host, the service and the lines. -/
def ServiceAlert.logCall : ServiceAlert → Option (ℕ × ℕ × String)
  | log hostId servId _ lines => some (hostId, servId, lines)
  | service _ _ _ => none

/-- A call of `sendService`: the host, the service and the message. -/
def ServiceAlert.serviceCall : ServiceAlert → Option (ℕ × ℕ × String)
  | log _ _ _ _ => none
  | service hostId servId msg => some (hostId, servId, msg)

namespace ServiceReport

variable (report : ServiceReport) (col : Collation)

/-- The lines that no report before had. -/
def newLines (seen : List LogLine) : List LogLine :=
  (LogLine.likeness col).firsts seen report.lines

/-- One call for all new lines. -/
def logCalls (seen : List LogLine) : List (ℕ × ℕ × String) :=
  if report.newLines col seen = [] then []
  else [(report.hostId, report.servId, textOf "" (report.newLines col seen))]

def serviceCalls (t : ServiceTables) (seen : List Component) : List (ℕ × ℕ × String) :=
  if report.Announces col t seen then [(report.hostId, report.servId, report.message)] else []

end ServiceReport

/-- What reports do to the tables, and which calls they cause. -/
structure Outcome (col : Collation) (t : ServiceTables) (reports : List ServiceReport)
    (t' : ServiceTables) (alerts : List ServiceAlert) : Prop where
  known : t.Known col t'
  found : ∀ report ∈ reports, t'.findHost col report.logsHost = some report.hostId ∧
    t'.findService col (report.logsHost, report.name) = some report.servId
  keyed : t.Keyed → t'.Keyed
  positive : t.PositiveTypes → t'.PositiveTypes
  logEvents : ∃ added, t'.logEvents = t.logEvents ++ added ∧ added.map LogRow.line =
    (LogLine.likeness col).firsts t.lines (reports.flatMap ServiceReport.lines)
  process : t'.process = (reports.flatMap ServiceReport.process).foldl (processStore col).put t.process
  sockets : t'.sockets = (reports.flatMap ServiceReport.sockets).foldl (socketStore col).put t.sockets
  logCalls : t.PositiveTypes → alerts.filterMap ServiceAlert.logCall =
    inTurn ServiceReport.lines (fun seen report => report.logCalls col seen) t.lines reports
  silent : (LogLine.likeness col).firsts t.lines (reports.flatMap ServiceReport.lines) = [] →
    alerts.filterMap ServiceAlert.logCall = []
  serviceCalls : alerts.filterMap ServiceAlert.serviceCall =
    inTurn ServiceReport.components (fun seen report => report.serviceCalls col t seen) [] reports

namespace Outcome

variable {col : Collation} {t t' t'' : ServiceTables} {reports reports' : List ServiceReport}
  {alerts alerts' : List ServiceAlert}

theorem lines (h : Outcome col t reports t' alerts) : t'.lines = t.lines ++
    (LogLine.likeness col).firsts t.lines (reports.flatMap ServiceReport.lines) := by
  obtain ⟨added, hadded, hlines⟩ := h.logEvents
  rw [lines_append hadded, hlines]

/-- The lines of later reports, as seen from the first tables. -/
theorem firsts_later (h : Outcome col t reports t' alerts) (xs : List LogLine) :
    (LogLine.likeness col).firsts t'.lines xs = (LogLine.likeness col).firsts
      (t.lines ++ reports.flatMap ServiceReport.lines) xs := by
  apply Likeness.firsts_congr
  intro y
  rw [h.lines, Likeness.seenIn_append_firsts]

/-- Statements that keep what reports are compared with. -/
theorem of_known (hknown : t.Known col t') (hkeyed : t.Keyed → t'.Keyed)
    (htypes : t'.eventTypes = t.eventTypes) (hlogEvents : t'.logEvents = t.logEvents)
    (hprocess : t'.process = t.process) (hsockets : t'.sockets = t.sockets) :
    Outcome col t [] t' [] where
  known := hknown
  found := by simp
  keyed := hkeyed
  positive hp := by
    rw [ServiceTables.PositiveTypes, htypes]
    exact hp
  logEvents := ⟨[], hlogEvents.trans (List.append_nil _).symm, rfl⟩
  process := hprocess
  sockets := hsockets
  logCalls _ := rfl
  silent _ := rfl
  serviceCalls := rfl

theorem foldl_store_components (report : ServiceReport) (t : ServiceTables) :
    report.components.foldl (Component.store col) t = { t with
      process := report.process.foldl (processStore col).put t.process
      sockets := report.sockets.foldl (socketStore col).put t.sockets } := by
  have hprocess (rows : List ProcessRow) (t : ServiceTables) :
      (rows.map Component.process).foldl (Component.store col) t =
        { t with process := rows.foldl (processStore col).put t.process } := by
    induction rows generalizing t with
    | nil => rfl
    | cons row rows ih => exact ih (t.insertProcess col row)
  have hsockets (rows : List SocketRow) (t : ServiceTables) :
      (rows.map Component.socket).foldl (Component.store col) t =
        { t with sockets := rows.foldl (socketStore col).put t.sockets } := by
    induction rows generalizing t with
    | nil => rfl
    | cons row rows ih => exact ih (t.insertSocket col row)
  rw [ServiceReport.components, List.foldl_append, hprocess, hsockets]

/-- The tables of the components after reports, in the order of their loops. -/
theorem foldl_store_reports (col : Collation) (reports : List ServiceReport) (t : ServiceTables) :
    (reports.flatMap ServiceReport.components).foldl (Component.store col) t = { t with
      process := (reports.flatMap ServiceReport.process).foldl (processStore col).put t.process
      sockets := (reports.flatMap ServiceReport.sockets).foldl (socketStore col).put t.sockets } := by
  induction reports generalizing t with
  | nil => rfl
  | cons report reports ih =>
      rw [List.flatMap_cons, List.foldl_append, foldl_store_components, ih, List.flatMap_cons,
        List.flatMap_cons, List.foldl_append, List.foldl_append]

/-- What is news after reports, as seen from the first tables. -/
theorem news_later (h : Outcome col t reports t' alerts) (seen cs : List Component) :
    Component.news col t' seen cs =
      Component.news col t (reports.flatMap ServiceReport.components ++ seen) cs := by
  rw [← Component.news_foldl_store, foldl_store_reports col reports t]
  exact news_congr h.process h.sockets seen cs

/-- The calls of later reports, as seen from the first tables. -/
theorem serviceCalls_later (h : Outcome col t reports t' alerts) (report : ServiceReport)
    (seen : List Component) : report.serviceCalls col t' seen =
      report.serviceCalls col t (reports.flatMap ServiceReport.components ++ seen) := by
  simp only [ServiceReport.serviceCalls, ServiceReport.announces_iff, h.news_later]

theorem trans (h : Outcome col t reports t' alerts) (h' : Outcome col t' reports' t'' alerts') :
    Outcome col t (reports ++ reports') t'' (alerts ++ alerts') where
  known := h.known.trans h'.known
  found := by
    refine List.forall_mem_append.mpr ⟨fun report hreport => ?_, h'.found⟩
    obtain ⟨hhost, hservice⟩ := h.found report hreport
    exact ⟨h'.known.host _ _ hhost, h'.known.service _ _ hservice⟩
  keyed hk := h'.keyed (h.keyed hk)
  positive hp := h'.positive (h.positive hp)
  logEvents := by
    obtain ⟨added, hadded, hlines⟩ := h.logEvents
    obtain ⟨added', hadded', hlines'⟩ := h'.logEvents
    refine ⟨added ++ added', ?_, ?_⟩
    · rw [hadded', hadded, List.append_assoc]
    · rw [List.map_append, hlines, hlines', h.firsts_later, List.flatMap_append,
        Likeness.firsts_append]
  process := by rw [h'.process, h.process, List.flatMap_append, List.foldl_append]
  sockets := by rw [h'.sockets, h.sockets, List.flatMap_append, List.foldl_append]
  logCalls hp := by
    rw [List.filterMap_append, h.logCalls hp, h'.logCalls (h.positive hp), inTurn_append]
    congr 1
    -- what is stored is what was seen
    apply inTurn_congr fun seen seen' => ∀ y,
      (LogLine.likeness col).seenIn seen y = (LogLine.likeness col).seenIn seen' y
    · intro seen seen' report hsame y
      rw [Likeness.seenIn_append, Likeness.seenIn_append, hsame y]
    · intro seen seen' report hsame
      have hnew : report.newLines col seen = report.newLines col seen' :=
        Likeness.firsts_congr hsame report.lines
      rw [ServiceReport.logCalls, ServiceReport.logCalls, hnew]
    · intro y
      rw [h.lines, Likeness.seenIn_append_firsts]
  silent hnone := by
    rw [List.flatMap_append, Likeness.firsts_append, List.append_eq_nil_iff] at hnone
    rw [List.filterMap_append, h.silent hnone.1, h'.silent ((h.firsts_later _).trans hnone.2)]
    rfl
  serviceCalls := by
    rw [List.filterMap_append, h.serviceCalls, h'.serviceCalls, inTurn_append]
    congr 1
    apply inTurn_congr fun seen seen' => seen' = reports.flatMap ServiceReport.components ++ seen
    · rintro seen seen' report rfl
      exact List.append_assoc _ _ _
    · rintro seen seen' report rfl
      exact h.serviceCalls_later report seen
    · simp

end Outcome

/-! ### The services of a reply -/

/-- What a reply reports of a service, with the ids of the tables. -/
def ServiceTables.report (col : Collation) (t : ServiceTables) (fp : ℚ)
    (service : String × Json) : ServiceReport :=
  .read ((t.findHost col (logsHost service)).getD 0)
    ((t.findService col (logsHost service, service.1)).getD 0) fp service

def ServiceReport.historyRow (report : ServiceReport) (fp : ℚ) : HistoryRow :=
  ⟨report.servId, fp, report.failed, 0, report.ok⟩

section services

variable {col : Collation} {fp : ℚ} {r r' : Round} {hosts hosts' : List ℕ}

theorem keyed_updateType {t : ServiceTables} (servId typeId : ℕ) (h : t.Keyed) :
    (t.updateType servId typeId).Keyed := by
  refine ⟨h.hosts, ?_⟩
  have hids : (t.updateType servId typeId).services.map ServiceRow.id =
      t.services.map ServiceRow.id := by
    rw [ServiceTables.updateType, List.map_map]
    apply List.map_congr_left
    intro row _
    rw [Function.comp_apply]
    split
    · rfl
    · rfl
  rw [hids]
  exact h.services

/-- What follows the lookups of a service. -/
theorem afterLookup_outcome {service : String × Json} {l : Locals} {t : ServiceTables}
    (hv : ServiceOk service.2) (hhost : t.findHost col (logsHost service) = some l.hostId)
    (hservice : t.findService col (logsHost service, service.1) = some l.servId)
    (h : afterLookup col (fun _ => true) fp service (l, t) = .ok (r, hosts)) :
    let report := ServiceReport.read l.hostId l.servId fp service
    hosts = l.hosts ∧ ∃ alerts, r.alerts = l.alerts ++ alerts ∧
      Outcome col t [report] r.tables alerts ∧
      r.tables.history = (t.insertHistory (report.historyRow fp)).history := by
  intro report
  obtain ⟨hsame, s, hlogged, htables, hcalls⟩ := afterLookup_report hv h
  have hexplicit : r.tables = { t with
      eventTypes := s.round.tables.eventTypes
      logEvents := s.round.tables.logEvents
      process := report.process.foldl (processStore col).put t.process
      sockets := report.sockets.foldl (socketStore col).put t.sockets
      services := (t.updateType l.servId l.typeId).services
      history := (t.insertHistory (report.historyRow fp)).history } := by
    rw [htables, Outcome.foldl_store_components, hlogged.frame]
    rfl
  rw [List.append_assoc] at hcalls
  refine ⟨hsame, _, hcalls, ?_, by rw [hexplicit]⟩
  have hcons {α : Type} (f : ServiceReport → List α) : [report].flatMap f = f report := by
    rw [List.flatMap_cons, List.flatMap_nil, List.append_nil]
  have hknown : t.Known col r.tables := by
    rw [hexplicit]
    exact ⟨fun _ _ hf => hf, (ServiceTables.later_updateType t l.servId l.typeId).found⟩
  refine ⟨hknown, ?_, fun hk => ?_, fun hp => ?_, ?_, ?_, ?_, fun hp => ?_, fun hnone => ?_, ?_⟩
  · intro other hother
    rw [List.mem_singleton.mp hother]
    exact ⟨hknown.host _ _ hhost, hknown.service _ _ hservice⟩
  · rw [hexplicit]
    have hk' := keyed_updateType l.servId l.typeId hk
    exact ⟨hk'.hosts, hk'.services⟩
  · rw [hexplicit]
    exact hlogged.positive hp
  · rw [hexplicit, hcons]
    exact hlogged.stored
  · rw [hexplicit, hcons]
  · rw [hexplicit, hcons]
  · have hlvl : 0 < s.maxlvl ↔ report.newLines col t.lines ≠ [] := by
      rw [hlogged.maxlvl hp]
      exact or_iff_right (lt_irrefl 0)
    rw [inTurn, inTurn, List.append_nil, ServiceReport.logCalls, List.filterMap_append]
    by_cases hnew : report.newLines col t.lines = []
    · rw [if_neg (fun hpos => hlvl.mp hpos hnew), if_pos hnew]
      split
      · rfl
      · rfl
    · rw [if_pos (hlvl.mpr hnew), if_neg hnew, hlogged.text]
      split
      · rfl
      · rfl
  · rw [hcons] at hnone
    have hzero : ¬ 0 < s.maxlvl := by
      rw [hlogged.silent hnone]
      exact lt_irrefl 0
    rw [if_neg hzero, List.nil_append]
    split
    · rfl
    · rfl
  · rw [inTurn, inTurn, List.append_nil, ServiceReport.serviceCalls, List.filterMap_append]
    split
    · split
      · rfl
      · rfl
    · split
      · rfl
      · rfl

/-- A service of the right types. -/
theorem collectService_outcome {service : String × Json} (hv : ServiceOk service.2)
    (h : collectService col (fun _ => true) fp (r, hosts) service = .ok (r', hosts')) :
    ∃ report alerts, (∀ u, r'.tables.Known col u → report = u.report col fp service) ∧
      hosts' = report.hostId :: hosts ∧ r'.alerts = r.alerts ++ alerts ∧
      Outcome col r.tables [report] r'.tables alerts ∧
      r'.tables.history = (r.tables.insertHistory (report.historyRow fp)).history := by
  let l : Locals := { Locals.start with hosts := hosts, sent := r.sent, alerts := r.alerts }
  have heq : collectService col (fun _ => true) fp (l.round r.tables, l.hosts) service =
      .ok (r', hosts') := h
  rw [collectService_eq] at heq
  obtain ⟨m, hm, hafter⟩ := bind_eq_ok.mp heq
  obtain ⟨hframe, halerts, hhosts, hknown, hkeyed, hfoundHost, hfoundService⟩ :=
    lookupService_report hm fp
  obtain ⟨hsame, alerts, hr', houtcome, hhistory⟩ := afterLookup_outcome hv hfoundHost hfoundService hafter
  have hlookup : Outcome col r.tables [] m.2 [] := by
    apply Outcome.of_known hknown hkeyed
    · rw [hframe]
    · rw [hframe]
    · rw [hframe]
    · rw [hframe]
  refine ⟨_, alerts, fun u hu => ?_, hsame.trans hhosts, ?_, hlookup.trans houtcome, ?_⟩
  · have hto := houtcome.known.trans hu
    rw [ServiceTables.report]
    have h1 := hto.ofHost hfoundHost
    have h2 := hto.ofService hfoundService
    simp only [ServiceReport.read] at h1 h2
    rw [h1, h2]
  · rw [hr', halerts]
  · rw [hhistory, hframe]
    rfl

/-- The history of reports. -/
def recordHistory (fp : ℚ) (t : ServiceTables) (reports : List ServiceReport) : ServiceTables :=
  reports.foldl (fun t report => t.insertHistory (report.historyRow fp)) t

theorem recordHistory_congr {t t' : ServiceTables} (h : t.history = t'.history)
    (reports : List ServiceReport) :
    (recordHistory fp t reports).history = (recordHistory fp t' reports).history := by
  induction reports generalizing t t' with
  | nil => exact h
  | cons report reports ih =>
      apply ih
      simp only [ServiceTables.insertHistory, h]

/-- The loop over services of the right types. -/
theorem collectServices_outcome {services : List (String × Json)}
    (hv : ∀ service ∈ services, ServiceOk service.2)
    (h : services.foldlM (collectService col (fun _ => true) fp) (r, hosts) = .ok (r', hosts')) :
    ∃ reports alerts, (∀ u, r'.tables.Known col u → reports = services.map (u.report col fp)) ∧
      hosts' = (reports.map ServiceReport.hostId).reverse ++ hosts ∧
      r'.alerts = r.alerts ++ alerts ∧ Outcome col r.tables reports r'.tables alerts ∧
      r'.tables.history = (recordHistory fp r.tables reports).history := by
  induction services generalizing r hosts with
  | nil =>
      cases h
      exact ⟨[], [], fun _ _ => rfl, rfl, (List.append_nil _).symm,
        .of_known (.refl _) id rfl rfl rfl rfl, rfl⟩
  | cons service services ih =>
      obtain ⟨⟨m, hosts₁⟩, hm, hrest⟩ := foldlM_cons_eq_ok.mp h
      obtain ⟨hservice, hservices⟩ := List.forall_mem_cons.mp hv
      obtain ⟨report, first, hreport, hhosts₁, hfirst, hone, hhistory₁⟩ :=
        collectService_outcome hservice hm
      obtain ⟨reports, rest, hreports, hhosts', halerts, hmore, hhistory⟩ := ih hservices hrest
      refine ⟨report :: reports, first ++ rest, fun u hu => ?_, ?_, ?_, hone.trans hmore, ?_⟩
      · rw [List.map_cons, ← hreport u (hmore.known.trans hu), ← hreports u hu]
      · rw [hhosts', hhosts₁, List.map_cons, List.reverse_cons, List.append_assoc,
          List.singleton_append]
      · rw [halerts, hfirst, List.append_assoc]
      · rw [hhistory]
        exact recordHistory_congr hhistory₁ reports

/-- The missing statements, one for each host. -/
def missingStatements (fp : ℚ) (hosts : List ℕ) (t : ServiceTables) : ServiceTables :=
  (hosts.dedup.insertionSort (· ≤ ·)).foldl (fun t hostId => t.insertMissing hostId fp) t

theorem collectMissing_eq (fp : ℚ) (hosts : List ℕ) (r : Round) :
    (collectMissing (fun _ => true) fp hosts r).tables = missingStatements fp hosts r.tables ∧
      (collectMissing (fun _ => true) fp hosts r).alerts = r.alerts := by
  rw [collectMissing, missingStatements]
  generalize hosts.dedup.insertionSort (· ≤ ·) = known
  induction known generalizing r with
  | nil => exact ⟨rfl, rfl⟩
  | cons hostId known ih => exact ih (r.exec (fun _ => true) fun t => t.insertMissing hostId fp)

theorem missingStatements_frame (fp : ℚ) (hosts : List ℕ) (t : ServiceTables) :
    missingStatements fp hosts t = { t with history := (missingStatements fp hosts t).history } := by
  rw [missingStatements]
  generalize hosts.dedup.insertionSort (· ≤ ·) = known
  induction known generalizing t with
  | nil => rfl
  | cons hostId known ih => exact ih (t.insertMissing hostId fp)

end services

/-! ### Replies -/

section replies

def Reply.services (reply : Reply) : List (String × Json) :=
  match reply.data.member "services" with
  | .ok services => services.entries
  | .error _ => []

def Reply.reports (col : Collation) (t : ServiceTables) (reply : Reply) : List ServiceReport :=
  reply.services.map (t.report col reply.fp)

/-- The reply is of the types that `collect` reads. -/
def Reply.Ok (reply : Reply) : Prop := ReplyOk reply.data reply.agent.ressources

/-- A reply of the right types is handled in every state. -/
theorem handle_spec (col : Collation) {reply : Reply} (hok : reply.Ok) (s : ReplyState) :
    ∃ t alerts s', s.handle col reply = .ok s' ∧ s'.alerts = s.alerts ++ alerts ∧
      (∀ u, s'.tables.Known col u → reply.reports col u = reply.reports col s'.tables) ∧
      Outcome col s.tables (reply.reports col s'.tables) t alerts ∧
      t.history = (recordHistory reply.fp s.tables (reply.reports col s'.tables)).history ∧
      s'.tables = missingStatements reply.fp
        ((reply.reports col s'.tables).map ServiceReport.hostId).reverse t := by
  have hself : withEvents RessourceClient.currentEvents reply.agent.ressources =
      reply.agent.ressources := List.map_id _
  have hreturns := returns_of_replyOk hok col (fun _ => true) reply.answers reply.fp
    reply.agent.since true RessourceClient.currentEvents s.tables reply.db
  rw [hself] at hreturns
  obtain ⟨res, hres⟩ := hreturns
  have hhandle : s.handle col reply = .ok ⟨res.round.tables, s.alerts ++ res.round.alerts⟩ :=
    bind_eq_ok.mpr ⟨res, hres, rfl⟩
  obtain ⟨timestamp, -, h⟩ := bind_eq_ok.mp hres
  obtain ⟨since, -, h⟩ := bind_eq_ok.mp h
  obtain ⟨services, hservices, h⟩ := bind_eq_ok.mp h
  obtain ⟨⟨r, hosts⟩, hloop, h⟩ := bind_eq_ok.mp h
  obtain ⟨⟨ressources, parsed⟩, -, h⟩ := bind_eq_ok.mp h
  cases h
  have hv : ∀ service ∈ services.entries, ServiceOk service.2 := by
    intro service hmem
    apply hok.services
    rw [Json.elementsAt_of_path (Json.path_singleton.trans hservices)]
    exact List.mem_map_of_mem hmem
  have hentries : reply.services = services.entries := by rw [Reply.services, hservices]
  obtain ⟨reports, alerts, hreports, hhosts, halerts, houtcome, hhistory⟩ :=
    collectServices_outcome hv hloop
  obtain ⟨htables, hsent⟩ := collectMissing_eq reply.fp hosts r
  -- the missing statements change no id
  have hknown (u : ServiceTables)
      (hu : (collectMissing (fun _ => true) reply.fp hosts r).tables.Known col u) :
      reply.reports col u = reports := by
    rw [Reply.reports, hentries]
    symm
    apply hreports u
    rw [htables, missingStatements_frame] at hu
    exact ⟨hu.host, hu.service⟩
  refine ⟨r.tables, alerts, _, hhandle, ?_, fun u hu => ?_, ?_, ?_, ?_⟩
  · rw [hsent, halerts, List.nil_append]
  · rw [hknown u hu, hknown _ (.refl _)]
  · rw [hknown _ (.refl _)]
    exact houtcome
  · rw [hknown _ (.refl _)]
    exact hhistory
  · rw [hknown _ (.refl _), htables, hhosts, List.append_nil]

/-- What a reply does. -/
theorem handle_outcome (col : Collation) {reply : Reply} (hok : reply.Ok) (s : ReplyState) :
    ∃ alerts s', s.handle col reply = .ok s' ∧ s'.alerts = s.alerts ++ alerts ∧
      (∀ u, s'.tables.Known col u → reply.reports col u = reply.reports col s'.tables) ∧
      Outcome col s.tables (reply.reports col s'.tables) s'.tables alerts := by
  obtain ⟨t, alerts, s', hhandle, halerts, hreports, houtcome, -, htables⟩ := handle_spec col hok s
  refine ⟨alerts, s', hhandle, halerts, hreports, ?_⟩
  have hmissing : Outcome col t [] s'.tables [] := by
    rw [htables, missingStatements_frame]
    exact .of_known ⟨fun _ _ h => h, fun _ _ h => h⟩ (fun hk => ⟨hk.hosts, hk.services⟩) rfl rfl
      rfl rfl
  have hall := houtcome.trans hmissing
  rw [List.append_nil, List.append_nil] at hall
  exact hall

/-- What replies do one after the other, with the ids of any later tables. -/
theorem handleAll_outcome (col : Collation) {replies : List Reply} (hok : ∀ reply ∈ replies, reply.Ok)
    (t : ServiceTables) : ∃ s, handleAll col t replies = .ok s ∧ ∀ u, s.tables.Known col u →
      Outcome col t (replies.flatMap fun reply => reply.reports col u) s.tables s.alerts := by
  have hrun (s : ReplyState) : ∃ s' alerts, replies.foldlM (ReplyState.handle col) s = .ok s' ∧
      s'.alerts = s.alerts ++ alerts ∧ ∀ u, s'.tables.Known col u → Outcome col s.tables
        (replies.flatMap fun reply => reply.reports col u) s'.tables alerts := by
    induction replies generalizing s with
    | nil =>
        exact ⟨s, [], rfl, (List.append_nil _).symm,
          fun u _ => .of_known (.refl _) id rfl rfl rfl rfl⟩
    | cons reply replies ih =>
        obtain ⟨hreply, hreplies⟩ := List.forall_mem_cons.mp hok
        obtain ⟨first, m, hm, hfirst, hreports, hone⟩ := handle_outcome col hreply s
        obtain ⟨s', rest, hrest, halerts, hmore⟩ := ih hreplies m
        refine ⟨s', first ++ rest, foldlM_cons_eq_ok.mpr ⟨m, hm, hrest⟩, ?_, fun u hu => ?_⟩
        · rw [halerts, hfirst, List.append_assoc]
        · rw [List.flatMap_cons, hreports u ((hmore _ (.refl _)).known.trans hu)]
          exact hone.trans (hmore u hu)
  obtain ⟨s, alerts, hs, halerts, houtcome⟩ := hrun ⟨t, []⟩
  rw [List.nil_append] at halerts
  exact ⟨s, hs, halerts ▸ houtcome⟩

/-- What some replies do, and what the next one does. -/
theorem handleAll_then_outcome (col : Collation) {before : List Reply} {reply : Reply}
    (hok : ∀ r ∈ before ++ [reply], r.Ok) (t : ServiceTables) :
    ∃ m m' alerts, handleAll col t before = .ok m ∧ m.handle col reply = .ok m' ∧
      m'.alerts = m.alerts ++ alerts ∧
      Outcome col t (before.flatMap fun r => r.reports col m'.tables) m.tables m.alerts ∧
      Outcome col m.tables (reply.reports col m'.tables) m'.tables alerts := by
  obtain ⟨hbefore, hreply⟩ := List.forall_mem_append.mp hok
  obtain ⟨m, hm, hall⟩ := handleAll_outcome col hbefore t
  obtain ⟨alerts, m', hm', halerts, -, hone⟩ :=
    handle_outcome col (hreply reply (List.mem_singleton_self reply)) m
  exact ⟨m, m', alerts, hm, hm', halerts, hall m'.tables hone.known, hone⟩

end replies

/-! ### Replies of some services -/

section replyOf

/-- A service of a host, with log entries, processes and sockets. -/
def serviceOf (host : String) (entries process sockets : List Json) : Json :=
  .obj [("host", .str host), ("logs", .obj [("host", .str host), ("entries", .arr entries)]),
    ("status", .obj [("properties", .obj [("type", .str "daemon")]), ("process", .arr process),
      ("sockets", .arr sockets)])]

def entryOf (source date : String) (line : ℤ) (text level : String) : Json :=
  .obj [("source", .str source), ("date_mark", .str date), ("line_no", .int line),
    ("text", .str text), ("level", .str level), ("timestamp", .int 1000)]

def socketOf (name status : String) : Json := .obj [("name", .str name), ("status", .str status)]

/-- A reply to an agent without clients. -/
def replyOf (fp : ℚ) (services : List (String × Json)) : Reply where
  data := .obj [("timestamp", .int 1), ("services", .obj services)]
  fp := fp
  answers := fun _ => .failed
  agent := ⟨0, []⟩
  db := emptyDatabase

theorem Json.elements_arr (elements : List Json) : (Json.arr elements).elements = elements := by
  rw [Json.elements, Json.entries, List.map_map]
  exact (List.zipIdx_map_fst 0 elements)

theorem logOk_entryOf (source date text level : String) {line : ℤ}
    (h : 0 ≤ line ∧ line ≤ 2 ^ 32 - 1) : LogOk (entryOf source date line text level) :=
  ⟨⟨_, rfl⟩, ⟨line, if_pos h⟩, ⟨_, rfl⟩, ⟨_, rfl⟩, ⟨_, rfl⟩, ⟨_, rfl⟩⟩

theorem socketOk_socketOf (name status : String) : SocketOk (socketOf name status) :=
  ⟨⟨_, rfl⟩, ⟨_, rfl⟩⟩

theorem serviceOk_serviceOf (host : String) {entries process sockets : List Json}
    (hl : ∀ entry ∈ entries, LogOk entry) (hp : ∀ p ∈ process, ProcessOk p)
    (hs : ∀ p ∈ sockets, SocketOk p) : ServiceOk (serviceOf host entries process sockets) := by
  refine ⟨⟨_, rfl⟩, ⟨_, rfl⟩, ?_, ?_, ?_, fun _ => ⟨_, rfl⟩⟩
  · rw [Json.elementsAt_of_path (w := .arr entries) rfl, Json.elements_arr]
    exact hl
  · rw [Json.elementsAt_of_path (w := .arr process) rfl, Json.elements_arr]
    exact hp
  · rw [Json.elementsAt_of_path (w := .arr sockets) rfl, Json.elements_arr]
    exact hs

theorem replyOf_ok (fp : ℚ) {services : List (String × Json)}
    (h : ∀ service ∈ services, ServiceOk service.2) : (replyOf fp services).Ok := by
  refine ⟨⟨.int 1, rfl, _, rfl⟩, ?_, by simp [replyOf]⟩
  rw [Json.elementsAt_of_path (w := .obj services) rfl]
  intro v hv
  obtain ⟨service, hmem, rfl⟩ := List.mem_map.mp hv
  exact h service hmem

end replyOf

end WatchedBack
