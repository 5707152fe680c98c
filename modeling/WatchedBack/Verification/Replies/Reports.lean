import WatchedBack.Library.Reports
import WatchedBack.Verification.Collect.Services
import WatchedBack.Verification.Lookups

/-! # What the loops read

Entries of the right types, as the values that are read from them, and each loop as a fold of
what it does with one value. -/

namespace WatchedBack

open Fallible Reports

/-! ### Log lines -/

/-- A log entry of a service, as it is stored. -/
structure LogLine where
  servId : ℕ
  timestamp : ℚ
  sourceName : String
  dateField : String
  lineNo : ℤ
  text : String
  deriving DecidableEq, Repr

def LogRow.line (row : LogRow) : LogLine :=
  ⟨row.servId, row.timestamp, row.sourceName, row.dateField, row.lineNo, row.text⟩

/-- Two lines of one identity. -/
def LogLine.likeness (col : Collation) : Likeness LogLine where
  same x y := y.servId = x.servId ∧ col.same y.sourceName x.sourceName ∧ y.lineNo = x.lineNo ∧
    col.same y.dateField x.dateField
  refl x := by simp [col.refl]
  symm h := by
    simp only [decide_eq_true_eq] at h ⊢
    exact ⟨h.1.symm, col.symm h.2.1, h.2.2.1.symm, col.symm h.2.2.2⟩
  trans h h' := by
    simp only [decide_eq_true_eq] at h h' ⊢
    exact ⟨h'.1.trans h.1, col.trans h'.2.1 h.2.1, h'.2.2.1.trans h.2.2.1,
      col.trans h'.2.2.2 h.2.2.2⟩

def ServiceTables.lines (t : ServiceTables) : List LogLine := t.logEvents.map LogRow.line

theorem haveLogEvent_eq (col : Collation) (t : ServiceTables) (line : LogLine) :
    t.haveLogEvent col line.servId line.sourceName line.lineNo line.dateField =
      (LogLine.likeness col).seenIn t.lines line := by
  rw [ServiceTables.haveLogEvent, Likeness.seenIn, ServiceTables.lines, List.any_map]
  rfl

/-! ### Components -/

/-- A process or a socket of a service, as it is stored. -/
inductive Component
  | process (row : ProcessRow)
  | socket (row : SocketRow)
  deriving DecidableEq, Repr

namespace Component

def isProcess : Component → Bool
  | process _ => true
  | socket _ => false

def servId : Component → ℕ
  | process row => row.servId
  | socket row => row.servId

def name : Component → String
  | process row => row.name
  | socket row => row.name

def status : Component → String
  | process row => row.status
  | socket row => row.status

/-- Two components of one kind, service and name. -/
def likeness (col : Collation) : Likeness Component where
  same x y := y.isProcess = x.isProcess ∧ y.servId = x.servId ∧ col.same y.name x.name
  refl x := by simp [col.refl]
  symm h := by
    simp only [decide_eq_true_eq] at h ⊢
    exact ⟨h.1.symm, h.2.1.symm, col.symm h.2.2⟩
  trans h h' := by
    simp only [decide_eq_true_eq] at h h' ⊢
    exact ⟨h'.1.trans h.1, h'.2.1.trans h.2.1, col.trans h'.2.2 h.2.2⟩

/-- Two components of one status. -/
def statusLikeness (col : Collation) : Likeness Component where
  same x y := col.same x.status y.status
  refl x := col.refl x.status
  symm h := col.symm h
  trans h h' := col.trans h h'

def store (col : Collation) (t : ServiceTables) : Component → ServiceTables
  | process row => t.insertProcess col row
  | socket row => t.insertSocket col row

end Component

/-- The component is stored with its status. -/
def ServiceTables.holds (col : Collation) (t : ServiceTables) : Component → Bool
  | .process row => t.haveProcessStatus col row.servId row.name row.status
  | .socket row => t.haveSocketStatus col row.servId row.name row.status

theorem sameComponent_self (col : Collation) (x : ℕ × String) :
    decide (x.1 = x.1 ∧ col.same x.2 x.2) = true := by
  simp [col.refl]

/-- The unique index of `s$process` and that of `s$sockets`. -/
def componentKeys (col : Collation) : Likeness (ℕ × String) where
  same x y := y.1 = x.1 ∧ col.same y.2 x.2
  refl := sameComponent_self col
  symm h := by
    simp only [decide_eq_true_eq] at h ⊢
    exact ⟨h.1.symm, col.symm h.2⟩
  trans h h' := by
    simp only [decide_eq_true_eq] at h h' ⊢
    exact ⟨h'.1.trans h.1, col.trans h'.2 h.2⟩

def processStore (col : Collation) : KeyedRows ProcessRow where
  toLikeness := (componentKeys col).comap fun r => (r.servId, r.name)
  set x r := { x with servId := r.servId, name := r.name }
  same_set _ _ _ := rfl
  set_self _ := rfl
  set_set _ _ _ := rfl

def socketStore (col : Collation) : KeyedRows SocketRow where
  toLikeness := (componentKeys col).comap fun r => (r.servId, r.name)
  set x r := { x with servId := r.servId, name := r.name }
  same_set _ _ _ := rfl
  set_self _ := rfl
  set_set _ _ _ := rfl

section store

variable {col : Collation} {t : ServiceTables}

theorem insertProcess_process (row : ProcessRow) :
    (t.insertProcess col row).process = (processStore col).put t.process row := rfl

theorem insertSocket_sockets (row : SocketRow) :
    (t.insertSocket col row).sockets = (socketStore col).put t.sockets row := rfl

theorem haveProcessStatus_eq (row : ProcessRow) :
    t.haveProcessStatus col row.servId row.name row.status =
      t.process.any fun r => (processStore col).same row r && col.same r.status row.status := by
  rw [ServiceTables.haveProcessStatus]
  congr 1
  funext r
  simp [processStore, componentKeys, Likeness.comap, Bool.decide_and, Bool.and_assoc]

theorem haveSocketStatus_eq (row : SocketRow) :
    t.haveSocketStatus col row.servId row.name row.status =
      t.sockets.any fun r => (socketStore col).same row r && col.same r.status row.status := by
  rw [ServiceTables.haveSocketStatus]
  congr 1
  funext r
  simp [socketStore, componentKeys, Likeness.comap, Bool.decide_and, Bool.and_assoc]

theorem same_process (row row' : ProcessRow) :
    (Component.likeness col).same (.process row) (.process row') =
      (processStore col).same row row' := by
  simp [Component.likeness, Component.isProcess, Component.servId, Component.name, processStore,
    componentKeys, Likeness.comap]

theorem same_socket (row row' : SocketRow) :
    (Component.likeness col).same (.socket row) (.socket row') =
      (socketStore col).same row row' := by
  simp [Component.likeness, Component.isProcess, Component.servId, Component.name, socketStore,
    componentKeys, Likeness.comap]

/-- A stored component has the status that it was last stored with. -/
theorem holds_store (t : ServiceTables) (c x : Component) :
    (c.store col t).holds col x =
      if (Component.likeness col).same x c then col.same c.status x.status else t.holds col x := by
  cases c with
  | process row =>
      cases x with
      | process row' =>
          rw [same_process, Component.store, ServiceTables.holds, haveProcessStatus_eq,
            insertProcess_process]
          rw [KeyedRows.any_put (fun r : ProcessRow => col.same r.status row'.status)
            fun _ _ => rfl]
          rw [ServiceTables.holds, haveProcessStatus_eq]
          rfl
      | socket row' => rfl
  | socket row =>
      cases x with
      | process row' => rfl
      | socket row' =>
          rw [same_socket, Component.store, ServiceTables.holds, haveSocketStatus_eq,
            insertSocket_sockets]
          rw [KeyedRows.any_put (fun r : SocketRow => col.same r.status row'.status)
            fun _ _ => rfl]
          rw [ServiceTables.holds, haveSocketStatus_eq]
          rfl

/-- The tables know the last status of every component. -/
theorem holds_foldl_store (t : ServiceTables) (cs : List Component) (x : Component) :
    (cs.foldl (Component.store col) t).holds col x =
      match (Component.likeness col).last cs x with
      | some c => col.same c.status x.status
      | none => t.holds col x := by
  induction cs generalizing t with
  | nil => rfl
  | cons c cs ih =>
      rw [List.foldl_cons, ih, ← List.singleton_append, Likeness.last_append,
        Likeness.last_singleton]
      cases (Component.likeness col).last cs x with
      | some y => rfl
      | none =>
          rw [holds_store]
          cases (Component.likeness col).same x c with
          | true => rfl
          | false => rfl

end store

/-! ### Reading -/

namespace Json

/-- A member of a type that can be read as a string. -/
def text (v : Json) (key : String) : String :=
  ((v.member key >>= asString).toOption).getD ""

def logLine (servId : ℕ) (entry : Json) : LogLine where
  servId := servId
  timestamp := ((entry.member "timestamp" >>= asDouble).toOption).getD 0
  sourceName := entry.text "source"
  dateField := entry.text "date_mark"
  lineNo := ((entry.member "line_no" >>= asUInt).toOption).getD 0
  text := entry.text "text"

/-- The process has an id only if it is well. -/
def processRow (servId : ℕ) (fp : ℚ) (p : Json) : ProcessRow where
  servId := servId
  name := p.text "name"
  fullPath := p.text "full_path"
  cwd := p.text "cwd"
  username := p.text "username"
  pid := if p.text "status" = "ok" then ((p.member "pid" >>= asInt).toOption).getD 0 else 0
  status := p.text "status"
  timestamp := fp

def socketRow (servId : ℕ) (fp : ℚ) (p : Json) : SocketRow where
  servId := servId
  name := p.text "name"
  status := p.text "status"
  timestamp := fp

variable {v : Json} {key s : String}

theorem read_text (h : Succeeds (v.member key >>= asString)) :
    v.member key >>= asString = .ok (v.text key) := by
  obtain ⟨s, hs⟩ := h
  rw [text, hs]
  rfl

theorem read_cText (h : Succeeds (v.member key >>= asCString)) :
    v.member key >>= asCString = .ok (v.text key) := by
  obtain ⟨s, hs⟩ := h
  obtain ⟨w, hw, hc⟩ := bind_eq_ok.mp hs
  have hread : v.member key >>= asString = .ok s := bind_eq_ok.mpr ⟨w, hw, asString_of_asCString hc⟩
  rw [hs, text, hread]
  rfl

end Json

/-! ### The loops as folds -/

/-- An entry whose line is stored already is passed over. -/
def LogScan.take (col : Collation) (s : LogScan) (level : String) (line : LogLine) : LogScan :=
  if s.round.tables.haveLogEvent col line.servId line.sourceName line.lineNo line.dateField then s
  else
    s.add col (fun _ => true) level line.text fun eventType =>
      ⟨line.servId, line.timestamp, eventType, line.sourceName, line.dateField, line.lineNo,
        line.text⟩

/-- A component that is not well counts as newly failed if it is not stored with its status. -/
def StatusScan.take (col : Collation) (s : StatusScan) (c : Component) : StatusScan where
  round := s.round.exec (fun _ => true) fun t => c.store col t
  failed := if c.status = "ok" then s.failed else s.failed + 1
  nfailed := if c.status = "ok" ∨ s.round.tables.holds col c then s.nfailed else s.nfailed + 1
  ok := if c.status = "ok" then s.ok + 1 else s.ok

section loops

variable {col : Collation} {fp : ℚ} {servId : ℕ}

theorem collectLog_eq {entry : Json} (h : LogOk entry) (s : LogScan) :
    collectLog col (fun _ => true) servId s entry =
      .ok (s.take col (entry.text "level") (entry.logLine servId)) := by
  obtain ⟨ln, hln⟩ := h.lineNo
  obtain ⟨ts, hts⟩ := h.timestamp
  have hline : entry.logLine servId = ⟨servId, ts, entry.text "source", entry.text "date_mark", ln,
      entry.text "text"⟩ := by
    rw [Json.logLine, hln, hts]
    rfl
  rw [hline, LogScan.take, collectLog]
  simp only [Json.read_bind (Json.read_text (Json.succeeds_asString h.source)), Json.read_bind hln,
    Json.read_bind (Json.read_text (Json.succeeds_asString h.dateMark))]
  split
  · rfl
  · simp only [Json.read_bind (Json.read_text (Json.succeeds_asString h.text)),
      Json.read_bind (Json.read_text h.level), Json.read_bind hts,
      Json.read_bind (Json.read_cText h.source), Json.read_bind (Json.read_cText h.dateMark),
      Json.read_bind (Json.read_cText h.text)]
    rfl

theorem collectProcess_eq {p : Json} (h : ProcessOk p) (s : StatusScan) :
    collectProcess col (fun _ => true) fp servId s p =
      .ok (s.take col (.process (p.processRow servId fp))) := by
  rw [collectProcess]
  simp only [Json.read_bind (Json.read_cText h.name), Json.read_bind (Json.read_cText h.fullPath),
    Json.read_bind (Json.read_cText h.cwd), Json.read_bind (Json.read_cText h.username),
    Json.read_bind (Json.read_cText h.status),
    Json.read_bind (Json.read_text (Json.succeeds_asString h.status)),
    Json.read_bind (Json.read_text (Json.succeeds_asString h.name))]
  have hstatus := Json.statusOk_of_read (Json.read_text (Json.succeeds_asString h.status))
  split
  · next hok =>
    obtain ⟨pid, hpid⟩ := h.pid (by rw [hstatus, hok]; rfl)
    rw [Json.read_bind hpid, StatusScan.take]
    simp only [Json.processRow, Component.status, hok, if_true, true_or, hpid]
    rfl
  · next hne =>
    rw [StatusScan.take]
    simp only [Json.processRow, Component.status, hne, if_false, false_or]
    rfl

theorem collectSocket_eq {p : Json} (h : SocketOk p) (s : StatusScan) :
    collectSocket col (fun _ => true) fp servId s p =
      .ok (s.take col (.socket (p.socketRow servId fp))) := by
  rw [collectSocket]
  simp only [Json.read_bind (Json.read_cText h.name), Json.read_bind (Json.read_cText h.status),
    Json.read_bind (Json.read_text (Json.succeeds_asString h.status)),
    Json.read_bind (Json.read_text (Json.succeeds_asString h.name))]
  split
  · next hok =>
    rw [StatusScan.take]
    simp only [Json.socketRow, Component.status, hok, if_true, true_or]
    rfl
  · next hne =>
    rw [StatusScan.take]
    simp only [Json.socketRow, Component.status, hne, if_false, false_or]
    rfl

end loops

/-! ### What the loops do -/

/-- No event type has the id 0. -/
def ServiceTables.PositiveTypes (t : ServiceTables) : Prop := ∀ row ∈ t.eventTypes, row.id ≠ 0

/-- The text of an alert about lines. -/
def textOf (text : String) (lines : List LogLine) : String :=
  lines.foldl (fun text line => text ++ line.text ++ "\n") text

/-- What the loop over the log entries does with the lines: the first line of each identity is
stored, and added to the text. -/
structure Logged (col : Collation) (s : LogScan) (lines : List LogLine) (s' : LogScan) : Prop where
  frame : s'.round.tables = { s.round.tables with
    eventTypes := s'.round.tables.eventTypes
    logEvents := s'.round.tables.logEvents }
  alerts : s'.round.alerts = s.round.alerts
  stored : ∃ added, s'.round.tables.logEvents = s.round.tables.logEvents ++ added ∧
    added.map LogRow.line = (LogLine.likeness col).firsts s.round.tables.lines lines
  text : s'.text = textOf s.text ((LogLine.likeness col).firsts s.round.tables.lines lines)
  positive : s.round.tables.PositiveTypes → s'.round.tables.PositiveTypes
  maxlvl : s.round.tables.PositiveTypes → (0 < s'.maxlvl ↔
    0 < s.maxlvl ∨ (LogLine.likeness col).firsts s.round.tables.lines lines ≠ [])
  silent : (LogLine.likeness col).firsts s.round.tables.lines lines = [] → s'.maxlvl = s.maxlvl

section logged

variable {col : Collation} {s m s' : LogScan} {xs ys : List LogLine}

theorem lines_append {t t' : ServiceTables} {added : List LogRow}
    (h : t'.logEvents = t.logEvents ++ added) : t'.lines = t.lines ++ added.map LogRow.line := by
  rw [ServiceTables.lines, h, List.map_append]
  rfl

theorem Logged.lines (h : Logged col s xs s') : s'.round.tables.lines = s.round.tables.lines ++
    (LogLine.likeness col).firsts s.round.tables.lines xs := by
  obtain ⟨added, hadded, hlines⟩ := h.stored
  rw [lines_append hadded, hlines]

theorem Logged.refl (s : LogScan) : Logged col s [] s := by
  refine ⟨rfl, rfl, ⟨[], (List.append_nil _).symm, rfl⟩, rfl, id, fun _ => ?_, fun _ => rfl⟩
  simp [Likeness.firsts]

theorem Logged.trans (h : Logged col s xs m) (h' : Logged col m ys s') :
    Logged col s (xs ++ ys) s' := by
  have hseen : (LogLine.likeness col).firsts m.round.tables.lines ys =
      (LogLine.likeness col).firsts (s.round.tables.lines ++ xs) ys := by
    apply Likeness.firsts_congr
    intro y
    rw [h.lines, Likeness.seenIn_append_firsts]
  refine ⟨?_, h'.alerts.trans h.alerts, ?_, ?_, fun hp => h'.positive (h.positive hp), fun hp => ?_,
    fun hnone => ?_⟩
  · rw [h'.frame, h.frame]
  · obtain ⟨added, hadded, hlines⟩ := h.stored
    obtain ⟨added', hadded', hlines'⟩ := h'.stored
    refine ⟨added ++ added', ?_, ?_⟩
    · rw [hadded', hadded, List.append_assoc]
    · rw [List.map_append, hlines, hlines', hseen, Likeness.firsts_append]
  · rw [h'.text, hseen, h.text, Likeness.firsts_append, textOf, textOf, textOf, List.foldl_append]
  · rw [h'.maxlvl (h.positive hp), hseen, h.maxlvl hp, Likeness.firsts_append, or_assoc]
    apply or_congr_right
    rw [ne_eq, ne_eq, ne_eq, List.append_eq_nil_iff, not_and_or]
  · rw [Likeness.firsts_append, List.append_eq_nil_iff] at hnone
    exact (h'.silent (hseen.trans hnone.2)).trans (h.silent hnone.1)

theorem getName_positive (found : NameRow → Bool) {name : String} {rows : List NameRow}
    (hname : ∀ id, found ⟨id, name⟩ = true) (h : ∀ row ∈ rows, row.id ≠ 0) :
    (∀ row ∈ (getName found name (nextId (rows.map NameRow.id)) rows).1, row.id ≠ 0) ∧
      (getName found name (nextId (rows.map NameRow.id)) rows).2 ≠ 0 := by
  have hrows : ∀ row ∈ (getName found name (nextId (rows.map NameRow.id)) rows).1, row.id ≠ 0 := by
    intro row hrow
    dsimp only [getName] at hrow
    split at hrow
    · exact h row hrow
    · rcases List.mem_append.mp hrow with hrow | hrow
      · exact h row hrow
      · rw [List.mem_singleton.mp hrow]
        exact Nat.succ_ne_zero _
  apply And.intro hrows
  obtain ⟨row, hfind, hid⟩ := Option.map_eq_some_iff.mp (getName_spec found name rows hname).2
  rw [← hid]
  exact hrows row (List.mem_of_find?_eq_some hfind)

/-- One line. -/
theorem logged_take (s : LogScan) (level : String) (line : LogLine) :
    Logged col s [line] (s.take col level line) := by
  have hhave := haveLogEvent_eq col s.round.tables line
  rw [LogScan.take, hhave]
  split
  · next hseen =>
    have hnone : (LogLine.likeness col).firsts s.round.tables.lines [line] = [] := by
      rw [Likeness.firsts, if_pos hseen, Likeness.firsts]
    refine ⟨rfl, rfl, ⟨[], (List.append_nil _).symm, hnone.symm⟩, ?_, id, fun _ => ?_, fun _ => rfl⟩
    · rw [hnone]
      rfl
    · simp [hnone]
  · next hseen =>
    have hone : (LogLine.likeness col).firsts s.round.tables.lines [line] = [line] := by
      rw [Likeness.firsts, if_neg hseen, Likeness.firsts]
    rw [← hhave] at hseen
    refine ⟨rfl, rfl, ?_, ?_, fun hp => ?_, fun hp => ?_, fun hnone => ?_⟩
    · have hupsert (row : LogRow) (change : LogRow → LogRow) : ServiceTables.upsert
          (ServiceTables.isLogEvent col line.servId line.sourceName line.lineNo line.dateField)
          change row s.round.tables.logEvents = s.round.tables.logEvents ++ [row] := if_neg hseen
      rw [hone]
      simp only [LogScan.add, Round.exec, if_true, ServiceTables.insertLog, hupsert]
      exact ⟨_, rfl, rfl⟩
    · rw [hone]
      rfl
    · exact (getName_positive _ (fun _ => col.refl (lower level)) hp).1
    · obtain ⟨-, hid⟩ := getName_positive (isEventType col level)
        (fun _ => col.refl (lower level)) hp
      have hpos : 0 < (getEventType col level
          (nextId (s.round.tables.eventTypes.map NameRow.id)) s.round.tables.eventTypes).2 :=
        Nat.pos_of_ne_zero hid
      rw [hone]
      simp only [LogScan.add, ne_eq, List.cons_ne_self, not_false_eq_true, or_true, iff_true]
      split
      · exact hpos
      · omega
    · rw [hone] at hnone
      cases hnone

/-- The whole loop. -/
theorem logged_foldl (col : Collation) (s : LogScan) (entries : List (String × LogLine)) :
    Logged col s (entries.map Prod.snd)
      (entries.foldl (fun s entry => s.take col entry.1 entry.2) s) := by
  induction entries generalizing s with
  | nil => exact .refl s
  | cons entry entries ih =>
      exact (logged_take s entry.1 entry.2).trans (ih (s.take col entry.1 entry.2))

end logged

namespace Component

def failed (c : Component) : Bool := c.status ≠ "ok"

/-- The component has failed, and its status is not that of the last report of it, or, before the
first one, not a stored one. -/
def rings (col : Collation) (t : ServiceTables) : Option Component → Component → Bool
  | some last, c => c.failed && !col.same last.status c.status
  | none, c => c.failed && !t.holds col c

/-- The failures that are news after the components seen before. -/
def news (col : Collation) (t : ServiceTables) (seen cs : List Component) : List Component :=
  (likeness col).alarms (rings col t) seen cs

variable {col : Collation} {t : ServiceTables}

/-- What the tables hold of the components that were stored counts as seen. -/
theorem rings_foldl_store (t : ServiceTables) (cs before : List Component) (x : Component) :
    rings col (cs.foldl (store col) t) ((likeness col).last before x) x =
      rings col t ((likeness col).last (cs ++ before) x) x := by
  rw [Likeness.last_append]
  cases (likeness col).last before x with
  | some y => rfl
  | none =>
      rw [rings, holds_foldl_store]
      cases (likeness col).last cs x with
      | some y => rfl
      | none => rfl

theorem news_foldl_store (t : ServiceTables) (cs seen xs : List Component) :
    news col (cs.foldl (store col) t) seen xs = news col t (cs ++ seen) xs := by
  apply Likeness.alarms_congr
  intro before x after _
  rw [rings_foldl_store, List.append_assoc]

end Component

/-- The loops over the components. -/
theorem foldl_take (col : Collation) (s : StatusScan) (cs : List Component) :
    let s' := cs.foldl (StatusScan.take col) s
    s'.round.tables = cs.foldl (Component.store col) s.round.tables ∧
      s'.round.alerts = s.round.alerts ∧
      s'.failed = s.failed + cs.countP Component.failed ∧
      s'.ok = s.ok + cs.countP (fun c => !c.failed) ∧
      s'.nfailed = s.nfailed + (Component.news col s.round.tables [] cs).length := by
  induction cs generalizing s with
  | nil => exact ⟨rfl, rfl, rfl, rfl, rfl⟩
  | cons c cs ih =>
      obtain ⟨htables, halerts, hfailed, hok, hnfailed⟩ := ih (s.take col c)
      have hstore : (s.take col c).round.tables = [c].foldl (Component.store col) s.round.tables := rfl
      rw [hstore, Component.news_foldl_store, List.append_nil] at hnfailed
      refine ⟨htables, halerts, hfailed.trans ?_, hok.trans ?_, hnfailed.trans ?_⟩
      · rw [StatusScan.take, List.countP_cons]
        by_cases h : c.status = "ok"
        · simp [Component.failed, h]
        · simp only [Component.failed, h, if_false, ne_eq, not_false_eq_true, decide_true, if_true]
          omega
      · rw [StatusScan.take, List.countP_cons]
        by_cases h : c.status = "ok"
        · simp only [Component.failed, h, if_true, ne_eq, not_true_eq_false, decide_false,
            Bool.not_false]
          omega
        · simp [Component.failed, h]
      · have hring : Component.rings col s.round.tables none c =
            (c.failed && !s.round.tables.holds col c) := rfl
        have hcons : Component.news col s.round.tables [] (c :: cs) =
            if Component.rings col s.round.tables none c then
              c :: Component.news col s.round.tables [c] cs
            else Component.news col s.round.tables [c] cs := rfl
        rw [StatusScan.take, hcons, hring]
        by_cases h : c.status = "ok"
        · simp [Component.failed, h]
        · cases s.round.tables.holds col c with
          | true => simp
          | false =>
              simp only [Component.failed, h, ne_eq, not_false_eq_true, decide_true, Bool.not_false,
                Bool.and_self, if_true, Bool.false_eq_true, or_self, if_false, List.length_cons]
              omega

end WatchedBack
