import WatchedBack.Library.Runs
import WatchedBack.Model.EventClients
import WatchedBack.Verification.Events.Restart

/-! # One open event for a rule

A client looks for an open event in the map that it loaded in `init` and has kept since, not in
the table. -/

namespace WatchedBack

open Runs
open Fallible (Succeeds bind_eq_ok)

/-! ### Open rows -/

/-- What a row is about. -/
def EventRow.subject (row : EventRow) : ℕ × ℕ × ℕ × String × Char × Column :=
  (row.ownerId, row.resId, row.eventType, row.property, row.oper, row.value)

/-- What the rows are about that a client inserts for a rule. -/
def RessourceClient.subject (c : RessourceClient) (e : ResEvent) :
    ℕ × ℕ × ℕ × String × Char × Column :=
  (c.hostId, c.resId, e.eventType, e.property, e.oper, Column.ofRat e.value)

def openSubjects (rows : List EventRow) : List (ℕ × ℕ × ℕ × String × Char × Column) :=
  (rows.filter fun row => row.endTime = none).map EventRow.subject

/-- No two open rows are about the same. -/
def EventTable.OneOpen (table : EventTable) : Prop := (openSubjects table.rows).Nodup

def Database.OneOpen (db : Database) : Prop := ∀ isService, (db.resEvents isService).OneOpen

section rows

variable {rows : List EventRow} {id : ℕ}

theorem mem_openSubjects {subject : ℕ × ℕ × ℕ × String × Char × Column} :
    subject ∈ openSubjects rows ↔
      ∃ row ∈ rows, row.endTime = none ∧ row.subject = subject := by
  simp [openSubjects, and_assoc]

theorem openSubjects_append (rows more : List EventRow) :
    openSubjects (rows ++ more) = openSubjects rows ++ openSubjects more := by
  rw [openSubjects, List.filter_append, List.map_append]
  rfl

theorem openSubjects_opened (c : RessourceClient) (ts current : ℚ) (e : ResEvent) :
    openSubjects [EventRow.opened id c.hostId c.resId ts e current] = [c.subject e] := rfl

/-- A change of some rows that opens none of them. -/
theorem openSubjects_map_sublist {f : EventRow → EventRow}
    (hf : ∀ row, (f row).endTime = none → row.endTime = none ∧ (f row).subject = row.subject) :
    (openSubjects (rows.map f)).Sublist (openSubjects rows) := by
  induction rows with
  | nil => exact .slnil
  | cons row rows ih =>
      have hsplit : ∀ (first : EventRow) (rest : List EventRow),
          openSubjects (first :: rest) = openSubjects [first] ++ openSubjects rest :=
        fun first rest => openSubjects_append [first] rest
      rw [List.map_cons, hsplit, hsplit row]
      refine .append ?_ ih
      by_cases hopen : (f row).endTime = none
      · obtain ⟨hold, hsame⟩ := hf row hopen
        simp [openSubjects, hopen, hold, hsame]
      · simp [openSubjects, hopen]

end rows

section statements

variable {table : EventTable} {id : ℕ}

theorem EventTable.OneOpen.setCurrentValue (h : table.OneOpen) (rowId : ℕ) (current : ℚ)
    (answer : Answer) : (table.exec (.setCurrentValue rowId current) answer).1.OneOpen := by
  cases answer with
  | failed => exact h
  | ok id =>
      refine h.sublist (openSubjects_map_sublist fun row => ?_)
      split
      · exact fun hopen => ⟨hopen, rfl⟩
      · exact fun hopen => ⟨hopen, rfl⟩

theorem EventTable.OneOpen.setEndTime (h : table.OneOpen) (rowId : ℕ) (ts : ℚ) (answer : Answer) :
    (table.exec (.setEndTime rowId ts) answer).1.OneOpen := by
  cases answer with
  | failed => exact h
  | ok id =>
      refine h.sublist (openSubjects_map_sublist fun row => ?_)
      split
      · exact fun hopen => by cases hopen
      · exact fun hopen => ⟨hopen, rfl⟩

theorem EventTable.oneOpen_insert_iff (c : RessourceClient) (ts current : ℚ) (e : ResEvent)
    (h : table.OneOpen) (hfresh : id ∉ table.ids) :
    (table.exec (.insertEvent c.hostId c.resId ts e current) (.ok id)).1.OneOpen ↔
      c.subject e ∉ openSubjects table.rows := by
  rw [EventTable.OneOpen, (EventTable.exec_insert_of_fresh _ _ ts e current hfresh).2,
    openSubjects_append, openSubjects_opened, List.nodup_append]
  constructor
  · intro hall hmem
    exact hall.2.2 _ hmem _ (List.mem_singleton_self _) rfl
  · intro hnew
    refine ⟨h, List.nodup_singleton _, ?_⟩
    rintro subject hsubject other hother rfl
    exact hnew (List.mem_singleton.mp hother ▸ hsubject)

/-- Every row stays under its id, with its rule fields. -/
def EventTable.Grows (table table' : EventTable) : Prop :=
  ∀ row ∈ table.rows, ∃ row' ∈ table'.rows, row'.id = row.id ∧ row'.event = row.event

theorem EventTable.Grows.refl (table : EventTable) : table.Grows table :=
  fun row hrow => ⟨row, hrow, rfl, rfl⟩

theorem EventTable.grows_exec (table : EventTable) (stmt : EventStmt) (answer : Answer) :
    table.Grows (table.exec stmt answer).1 := by
  intro row hrow
  cases answer with
  | failed => exact ⟨row, hrow, rfl, rfl⟩
  | ok id =>
      cases stmt with
      | insertEvent ownerId resId ts e current =>
          by_cases htaken : id ∈ table.ids
          · have hsame : table.exec (.insertEvent ownerId resId ts e current) (.ok id) = (table, 0) := by
              simp [EventTable.exec, EventTable.insert, EventRow.opened, htaken]
            rw [hsame]
            exact ⟨row, hrow, rfl, rfl⟩
          · rw [(exec_insert_of_fresh _ _ ts e current htaken).2]
            exact ⟨row, List.mem_append_left _ hrow, rfl, rfl⟩
      | setCurrentValue rowId current =>
          refine ⟨_, List.mem_map_of_mem hrow, ?_⟩
          split
          · exact ⟨rfl, rfl⟩
          · exact ⟨rfl, rfl⟩
      | setEndTime rowId ts =>
          refine ⟨_, List.mem_map_of_mem hrow, ?_⟩
          split
          · exact ⟨rfl, rfl⟩
          · exact ⟨rfl, rfl⟩

theorem EventTable.zero_notMem_exec (stmt : EventStmt) {answer : Answer} (h : 0 ∉ table.ids)
    (hanswer : ∀ id, answer = .ok id → id ≠ 0 ∧ id ∉ table.ids) :
    0 ∉ (table.exec stmt answer).1.ids := by
  cases stmt with
  | insertEvent ownerId resId ts e current =>
      cases answer with
      | failed => exact h
      | ok id =>
          obtain ⟨hne, hfresh⟩ := hanswer id rfl
          rw [EventTable.ids, (exec_insert_of_fresh _ _ ts e current hfresh).2, List.map_append,
            List.mem_append]
          intro hmem
          rcases hmem with hold | hnew
          · exact h hold
          · exact hne (List.mem_singleton.mp hnew).symm
  | setCurrentValue rowId current => rwa [ids_exec_setCurrentValue]
  | setEndTime rowId ts => rwa [ids_exec_setEndTime]

end statements

section database

variable {db : Database} {isService other : Bool} {table : EventTable}

theorem Database.resEvents_setResEvents_of_ne (h : other ≠ isService) :
    (db.setResEvents isService table).resEvents other = db.resEvents other := by
  cases isService <;> cases other <;> first | rfl | exact absurd rfl h

/-- What holds of the tables holds when one of them is replaced by another of which it holds. -/
theorem Database.forall_setResEvents {Q : Bool → EventTable → Prop}
    (h : ∀ b, Q b (db.resEvents b)) (htable : Q isService table) :
    ∀ b, Q b ((db.setResEvents isService table).resEvents b) := by
  intro b
  by_cases hb : b = isService
  · rw [hb, resEvents_setResEvents]
    exact htable
  · rw [resEvents_setResEvents_of_ne hb]
    exact h b

theorem Database.oneOpen_setResEvents_iff (h : db.OneOpen) :
    (db.setResEvents isService table).OneOpen ↔ table.OneOpen := by
  constructor
  · intro hall
    have htable := hall isService
    rwa [resEvents_setResEvents] at htable
  · exact forall_setResEvents (Q := fun _ table => table.OneOpen) h

end database

/-! ### The statements of one client -/

/-- Every event of the map is a row with its rule fields, open or not. -/
structure ParseState.Grounded (c : RessourceClient) (s : ParseState) : Prop where
  ids : ∀ isService, 0 ∉ (s.db.resEvents isService).ids
  events : ∀ (id : ℕ) (e : ResEvent), s.currentEvents[id]? = some e →
    ∃ row ∈ (s.db.resEvents c.isService).rows, row.id = id ∧ row.event = e

/-- The next statement succeeds; an insert gets an id that no row has had. -/
def ParseState.Served (answers : ℕ → Answer) (c : RessourceClient) (s : ParseState) : Prop :=
  ∃ id, answers s.log.length = .ok id ∧ id ≠ 0 ∧ id ∉ (s.db.resEvents c.isService).ids

section statements

variable {c : RessourceClient} {answers : ℕ → Answer} {line : Json} {s s' : ParseState}
  {e : ResEvent} {entry : ℕ × ResEvent}

theorem ParseState.Grounded.exec (h : s.Grounded c) (hserved : s.Served answers c)
    (stmt : EventStmt) : (s.exec c answers stmt).1.Grounded c ∧
      ∀ b, (s.db.resEvents b).Grows ((s.exec c answers stmt).1.db.resEvents b) := by
  have hgrows : ∀ b, (s.db.resEvents b).Grows ((s.exec c answers stmt).1.db.resEvents b) :=
    Database.forall_setResEvents (Q := fun b table => (s.db.resEvents b).Grows table)
      (fun b => .refl _) (EventTable.grows_exec _ stmt _)
  refine ⟨⟨?_, ?_⟩, hgrows⟩
  · apply Database.forall_setResEvents (Q := fun _ table => 0 ∉ table.ids) h.ids
    apply EventTable.zero_notMem_exec stmt (h.ids _)
    intro id hid
    obtain ⟨id', hid', hfresh⟩ := hserved
    cases hid'.symm.trans hid
    exact hfresh
  · intro id f hf
    obtain ⟨row, hrow, rfl, rfl⟩ := h.events id f hf
    exact hgrows c.isService row hrow

theorem openEvent_grounded (h : s.Grounded c) (hserved : s.Served answers c) (he : e.Storable)
    (hrun : openEvent c answers line s e = .ok s') :
    s'.Grounded c ∧ ∀ b, (s.db.resEvents b).Grows (s'.db.resEvents b) := by
  rcases openEvent_cases hrun with ⟨-, rfl⟩ | ⟨-, -, current, rfl⟩ |
    ⟨-, -, ts, current, value, rfl⟩
  · exact ⟨h, fun b => .refl _⟩
  · exact h.exec hserved _
  · obtain ⟨hexec, hgrows⟩ := h.exec hserved (.insertEvent c.hostId c.resId ts e current)
    refine ⟨⟨hexec.ids, ?_⟩, hgrows⟩
    obtain ⟨id, hid, -, hfresh⟩ := hserved
    have hinsert := EventTable.exec_insert_of_fresh c.hostId c.resId ts e current hfresh
    intro id' f hf
    rw [exec_insertId, hid, hinsert.1, Std.ExtTreeMap.getElem?_insert] at hf
    split at hf
    · next hsame =>
      obtain rfl : id = id' := compare_eq_iff_eq.mp hsame
      cases hf
      refine ⟨EventRow.opened id c.hostId c.resId ts e current, ?_, rfl, EventRow.opened_event he ..⟩
      change _ ∈ ((s.exec c answers _).1.db.resEvents c.isService).rows
      rw [exec_resEvents, hid, hinsert.2]
      exact List.mem_append_right _ (List.mem_singleton_self _)
    · exact hexec.events id' f hf

theorem closeEvent_grounded (h : s.Grounded c) (hserved : s.Served answers c)
    (hrun : closeEvent c answers line s entry = .ok s') :
    s'.Grounded c ∧ ∀ b, (s.db.resEvents b).Grows (s'.db.resEvents b) := by
  rcases closeEvent_cases hrun with ⟨-, rfl⟩ | ⟨-, ts, rfl⟩
  · exact ⟨h, fun b => .refl _⟩
  · obtain ⟨hexec, hgrows⟩ := h.exec hserved (.setEndTime entry.1 ts)
    refine ⟨⟨hexec.ids, ?_⟩, hgrows⟩
    intro id f hf
    rw [Std.ExtTreeMap.getElem?_erase] at hf
    split at hf
    · cases hf
    · exact hexec.events id f hf

/-- The line satisfies the rule and has a time to open an event at, and the map has no open one. -/
def ResEvent.Opens (e : ResEvent) (line : Json) (m : EventMap) : Prop :=
  e.verdict line = some true ∧ findEvent m e = 0 ∧
    Succeeds (line.member "timestamp" >>= Json.asFloat)

theorem Json.succeeds_asFloat {v : Json} {x : ℚ} (h : v.asDouble = .ok x) : Succeeds v.asFloat := by
  cases v <;> first | exact Fallible.succeeds_ok _ | cases h

theorem ResEvent.Opens.succeeds (c : RessourceClient) (answers : ℕ → Answer) (s : ParseState)
    (h : e.Opens line s.currentEvents) : Succeeds (openEvent c answers line s e) := by
  obtain ⟨hverdict, hfound, ts, hts⟩ := h
  obtain ⟨tsv, htsv, hts⟩ := bind_eq_ok.mp hts
  have hknown : e.known := by
    by_contra hnot
    simp [ResEvent.verdict, hnot] at hverdict
  have hcarried : ∃ v x, line.carried e.property = some v ∧ v.asDouble = .ok x ∧
      e.satisfiedBy x = true := by
    rw [ResEvent.verdict, if_pos hknown, Json.reading] at hverdict
    cases hv : line.carried e.property with
    | none => simp [hv] at hverdict
    | some v =>
        cases hx : v.asDouble with
        | error f => simp [hv, hx, Except.toOption] at hverdict
        | ok x => exact ⟨v, x, rfl, hx, by simpa [hv, hx, Except.toOption] using hverdict⟩
  obtain ⟨v, x, hv, hx, hsatisfied⟩ := hcarried
  have hmember : line.member e.property = .ok v ∧ v.isNull = false := by
    rw [Json.carried] at hv
    cases hm : line.member e.property with
    | error f => simp [hm] at hv
    | ok w =>
        simp only [hm] at hv
        split at hv
        · cases hv
        · next hnull =>
          cases hv
          exact ⟨rfl, by simpa using hnull⟩
  have hcarries : line.carries e.property = .ok true := by
    rw [Json.carries_eq, hmember.1]
    simp [Except.map, hmember.2]
  have hbegins : e.begins v = .ok true := by
    rw [ResEvent.begins_of_known hknown, hx]
    simp [Except.map, hsatisfied]
  obtain ⟨current, hcurrent⟩ := Json.succeeds_asFloat hx
  simp [openEvent, openEventWith, ParseState.alert, hcarries, hmember.1, hbegins, hfound, htsv, hts,
    hcurrent, hx]

/-- A rule that opens an event has found a time for it. -/
theorem ResEvent.Opens.of_openEvent (hrun : openEvent c answers line s e = .ok s')
    (hverdict : e.verdict line = some true) (hfound : findEvent s.currentEvents e = 0) :
    e.Opens line s.currentEvents := by
  refine ⟨hverdict, hfound, ?_⟩
  unfold openEvent openEventWith at hrun
  obtain ⟨carried, hcarried, hrun⟩ := bind_eq_ok.mp hrun
  cases carried with
  | false => simp [ResEvent.verdict_of_not_carries hcarried] at hverdict
  | true =>
      obtain ⟨v, hmember, hrun⟩ := bind_eq_ok.mp hrun
      obtain ⟨trig, hbegins, hrun⟩ := bind_eq_ok.mp hrun
      obtain rfl : trig = true :=
        (ResEvent.begins_iff_verdict hcarried hmember hbegins).mpr hverdict
      simp only [if_true, hfound, lt_self_iff_false, if_false] at hrun
      obtain ⟨tsv, htsv, hrun⟩ := bind_eq_ok.mp hrun
      obtain ⟨ts, hts, -⟩ := bind_eq_ok.mp hrun
      exact ⟨ts, bind_eq_ok.mpr ⟨tsv, htsv, hts⟩⟩

/-- A rule of the opening loop keeps one open row exactly if none is about the rule, where it
inserts a row. -/
theorem openEvent_oneOpen_iff (hone : s.db.OneOpen) (hserved : s.Served answers c)
    (hrun : openEvent c answers line s e = .ok s') :
    s'.db.OneOpen ↔ (e.Opens line s.currentEvents →
      c.subject e ∉ openSubjects (s.db.resEvents c.isService).rows) := by
  rcases openEvent_cases hrun with ⟨hverdict, rfl⟩ | ⟨-, hfound, current, rfl⟩ |
    ⟨hverdict, hfound, ts, current, value, rfl⟩
  · exact iff_of_true hone fun hopens => absurd hopens.1 hverdict
  · refine iff_of_true ?_ fun hopens => absurd hopens.2.1 hfound.ne'
    exact (Database.oneOpen_setResEvents_iff hone).mpr ((hone c.isService).setCurrentValue _ _ _)
  · obtain ⟨id, hid, -, hfresh⟩ := hserved
    have hiff := EventTable.oneOpen_insert_iff c ts current e (hone c.isService) hfresh
    rw [← hid] at hiff
    have hdb : (s.exec c answers (.insertEvent c.hostId c.resId ts e current)).1.db.OneOpen ↔
        c.subject e ∉ openSubjects (s.db.resEvents c.isService).rows :=
      (Database.oneOpen_setResEvents_iff hone).trans hiff
    constructor
    · exact fun h _ => hdb.mp h
    · exact fun h => hdb.mpr (h (.of_openEvent hrun hverdict hfound))

theorem closeEvent_oneOpen (hone : s.db.OneOpen)
    (hrun : closeEvent c answers line s entry = .ok s') : s'.db.OneOpen := by
  rcases closeEvent_cases hrun with ⟨-, rfl⟩ | ⟨-, ts, rfl⟩
  · exact hone
  · exact (Database.oneOpen_setResEvents_iff hone).mpr ((hone c.isService).setEndTime _ _ _)

/-- Where the map has no event of a rule, the open rows about it are those that the map lacks. -/
theorem ParseState.Grounded.notMem_openSubjects_iff (h : s.Grounded c) (he : e.Storable)
    (hfound : findEvent s.currentEvents e = 0) :
    c.subject e ∉ openSubjects (s.db.resEvents c.isService).rows ↔
      ∀ row ∈ (s.db.resEvents c.isService).rows, row.endTime = none → row.subject = c.subject e →
        row.id ∈ s.currentEvents := by
  rw [mem_openSubjects]
  constructor
  · intro hnone row hrow hopen hsubject
    exact absurd ⟨row, hrow, hopen, hsubject⟩ hnone
  · rintro hknown ⟨row, hrow, hopen, hsubject⟩
    obtain ⟨f, hf⟩ := mem_iff_exists_lookup.mp (hknown row hrow hopen hsubject)
    obtain ⟨row', hrow', hid, rfl⟩ := h.events row.id f hf
    obtain rfl : row' = row :=
      List.inj_on_of_nodup_map (s.db.resEvents c.isService).keyed hrow' hrow hid
    have hevent : row'.event = e := by
      simp only [EventRow.subject, RessourceClient.subject, Prod.mk.injEq] at hsubject
      obtain ⟨-, -, htype, hproperty, hoper, hvalue⟩ := hsubject
      rw [EventRow.event, htype, hproperty, hoper, hvalue, he]
    have hzero : 0 ∉ s.currentEvents := by
      intro hmem
      obtain ⟨g, hg⟩ := mem_iff_exists_lookup.mp hmem
      obtain ⟨zero, hz, hz0, -⟩ := h.events 0 g hg
      exact h.ids c.isService (List.mem_map.mpr ⟨zero, hz, hz0⟩)
    exact absent_of_findEvent_eq_zero hzero hfound row'.id (hevent ▸ hf)

end statements

/-! ### Moves -/

/-- The rules that are still to be compared fit in a column. -/
def ParsePoint.Storable : ParsePoint → Prop
  | .opening _ rules _ => ∀ e ∈ rules, e.Storable
  | _ => True

namespace EventClients

variable {answers : ℕ → Answer} {s : EventClients} {n : ℕ} {c : RessourceClient}
  {point : ParsePoint} {p : ParseState}

def OneOpen (s : EventClients) : Prop := s.db.OneOpen

/-- The server carries out the next statement of the client. -/
def Served (answers : ℕ → Answer) (s : EventClients) : ClientMove → Prop
  | .step n => ∀ c point, s.clients n = some ⟨c, point⟩ → (s.view c).Served answers c
  | _ => True

/-- Where a rule opens an event, the client has itself loaded or inserted every open row about
it. -/
def Informed (s : EventClients) : ClientMove → Prop
  | .step n => ∀ c line e rules lines,
      s.clients n = some ⟨c, .opening line (e :: rules) lines⟩ → e.Opens line c.currentEvents →
        ∀ row ∈ (s.db.resEvents c.isService).rows, row.endTime = none →
          row.subject = c.subject e → row.id ∈ c.currentEvents
  | _ => True

/-- The invariant of runs. -/
structure Grounded (s : EventClients) : Prop where
  ids : ∀ isService, 0 ∉ (s.db.resEvents isService).ids
  clients : ∀ n c point, s.clients n = some ⟨c, point⟩ →
    (s.view c).Grounded c ∧ (∀ e ∈ c.eventFactory, e.Storable) ∧ point.Storable

theorem grounded_start {db : Database} (hids : ∀ isService, 0 ∉ (db.resEvents isService).ids) :
    (start db).Grounded :=
  ⟨hids, fun n c point h => by cases h⟩

theorem Grounded.put (h : s.Grounded) (hc : (s.view c).Grounded c)
    (hrules : ∀ e ∈ c.eventFactory, e.Storable) (hpoint : point.Storable) :
    (s.put n c point).Grounded := by
  refine ⟨h.ids, fun m d other hm => ?_⟩
  by_cases hmn : m = n
  · simp only [EventClients.put, hmn, Function.update_self, Option.some.injEq,
      EventClient.mk.injEq] at hm
    obtain ⟨rfl, rfl⟩ := hm
    exact ⟨hc, hrules, hpoint⟩
  · simp only [EventClients.put, Function.update_of_ne hmn] at hm
    exact h.clients m d other hm

/-- What one client does leaves the rows of the others in place. -/
theorem Grounded.adopt (h : s.Grounded) (hp : p.Grounded c)
    (hgrows : ∀ b, (s.db.resEvents b).Grows (p.db.resEvents b))
    (hrules : ∀ e ∈ c.eventFactory, e.Storable) (hpoint : point.Storable) :
    (s.adopt n c point p).Grounded := by
  refine ⟨hp.ids, fun m d other hm => ?_⟩
  by_cases hmn : m = n
  · simp only [EventClients.adopt, hmn, Function.update_self, Option.some.injEq,
      EventClient.mk.injEq] at hm
    obtain ⟨rfl, rfl⟩ := hm
    exact ⟨⟨hp.ids, hp.events⟩, hrules, hpoint⟩
  · simp only [EventClients.adopt, Function.update_of_ne hmn] at hm
    obtain ⟨hd, hrest⟩ := h.clients m d other hm
    refine ⟨⟨hp.ids, ?_⟩, hrest⟩
    intro id e he
    obtain ⟨row, hrow, rfl, rfl⟩ := hd.events id e he
    exact hgrows d.isService row hrow

theorem Grounded.proceed (h : s.Grounded) (hc : (s.view c).Grounded c)
    (hrules : ∀ e ∈ c.eventFactory, e.Storable) (hpoint : point.Storable)
    {result : Except Fault ParseState}
    (hresult : ∀ p, result = .ok p →
      p.Grounded c ∧ ∀ b, (s.db.resEvents b).Grows (p.db.resEvents b)) :
    (s.proceed n c point result).Grounded := by
  cases result with
  | error f => exact h.put hc hrules trivial
  | ok p =>
      obtain ⟨hp, hgrows⟩ := hresult p rfl
      exact h.adopt hp hgrows hrules hpoint

theorem storable_ofLines (hrules : ∀ e ∈ c.eventFactory, e.Storable) (lines : List Json) :
    (ParsePoint.ofLines c lines).Storable := by
  cases lines with
  | nil => trivial
  | cons line lines => exact hrules

theorem Grounded.step (h : s.Grounded) (hclient : s.clients n = some ⟨c, point⟩)
    (hserved : (s.view c).Served answers c) : (s.step answers n c point).Grounded := by
  obtain ⟨hc, hrules, hpoint⟩ := h.clients n c point hclient
  cases point with
  | idle => exact h
  | factory =>
      refine h.put ⟨hc.ids, hc.events⟩ ?_ trivial
      intro e he
      rcases List.mem_append.mp he with hold | hnew
      · exact hrules e hold
      · obtain ⟨row, -, rfl⟩ := List.mem_map.mp hnew
        simp [ResEvent.Storable, FactoryRow.event]
  | opening line rules lines =>
      cases rules with
      | nil => exact h.put hc hrules trivial
      | cons e rules =>
          apply h.proceed hc hrules
          · exact fun f hf => hpoint f (List.mem_cons_of_mem _ hf)
          · exact fun p hp => openEvent_grounded hc hserved (hpoint e List.mem_cons_self) hp
  | closing line entries lines =>
      cases entries with
      | nil => exact h.put hc hrules trivial
      | cons entry entries =>
          apply h.proceed hc hrules
          · trivial
          · exact fun p hp => closeEvent_grounded hc hserved hp
  | storing line lines =>
      apply h.proceed hc hrules (storable_ofLines hrules lines)
      intro p hp
      obtain ⟨stmt, rfl⟩ := storeSample_cases hp
      exact ⟨⟨hc.ids, hc.events⟩, fun b => .refl _⟩

/-- A client that is made loads rows of the table. -/
theorem Grounded.init (h : s.Grounded) (c : RessourceClient) :
    (s.put n ({ c with currentEvents := ∅, eventFactory := [] }.loadEvents s.db)
      .factory).Grounded := by
  refine h.put ⟨h.ids, ?_⟩ nofun trivial
  intro id e he
  have hsub : (((s.db.resEvents c.isService).rows.filter c.owns).map EventRow.id).Nodup :=
    (s.db.resEvents c.isService).keyed.sublist (List.filter_sublist.map _)
  have hloaded := (RessourceClient.foldl_insert_lookup _ hsub ∅ (by simp) id e).mp he
  rcases hloaded with hnone | ⟨row, hrow, hid, hevent⟩
  · simp at hnone
  · exact ⟨row, List.mem_of_mem_filter hrow, hid, hevent⟩

theorem Grounded.move (h : s.Grounded) (move : ClientMove) (hserved : s.Served answers move) :
    (s.move answers move).Grounded := by
  cases move with
  | init n c =>
      simp only [EventClients.move]
      split
      · exact h.init c
      · exact h.init c
      · exact h
  | parse n data =>
      simp only [EventClients.move]
      split
      · next c hclient =>
        obtain ⟨hc, hrules, -⟩ := h.clients n c _ hclient
        exact h.put hc hrules (storable_ofLines hrules _)
      · exact h
  | step n =>
      simp only [EventClients.move]
      split
      · next c point hclient => exact h.step hclient (hserved c point hclient)
      · exact h

/-! ### When a move leaves one open event -/

theorem step_oneOpen_iff (h : s.Grounded) (hone : s.OneOpen)
    (hclient : s.clients n = some ⟨c, point⟩) (hserved : (s.view c).Served answers c) :
    (s.step answers n c point).OneOpen ↔ s.Informed (.step n) := by
  have hquiet : (∀ line e rules lines, point ≠ .opening line (e :: rules) lines) →
      (s.step answers n c point).OneOpen →
        ((s.step answers n c point).OneOpen ↔ s.Informed (.step n)) := by
    intro hpoint hkept
    refine iff_of_true hkept fun d line e rules lines hd => ?_
    obtain ⟨rfl, rfl⟩ := EventClient.mk.inj (Option.some.inj (hclient.symm.trans hd))
    exact absurd rfl (hpoint line e rules lines)
  cases point with
  | idle => exact hquiet nofun hone
  | factory => exact hquiet nofun hone
  | opening line rules lines =>
      cases rules with
      | nil => exact hquiet nofun hone
      | cons e rules =>
          obtain ⟨hc, -, hpoint⟩ := h.clients n c _ hclient
          have he : e.Storable := hpoint e List.mem_cons_self
          have hinformed : s.Informed (.step n) ↔ (e.Opens line c.currentEvents →
              c.subject e ∉ openSubjects (s.db.resEvents c.isService).rows) := by
            constructor
            · intro hinf hopens
              exact (hc.notMem_openSubjects_iff he hopens.2.1).mpr
                (hinf c line e rules lines hclient hopens)
            · intro hnone d line' e' rules' lines' hd hopens
              obtain ⟨rfl, hpt⟩ := EventClient.mk.inj (Option.some.inj (hclient.symm.trans hd))
              cases hpt
              exact (hc.notMem_openSubjects_iff he hopens.2.1).mp (hnone hopens)
          rw [hinformed]
          simp only [EventClients.step]
          cases hrun : openEvent c answers line (s.view c) e with
          | error f =>
              refine iff_of_true hone fun hopens => ?_
              obtain ⟨p, hp⟩ := hopens.succeeds c answers (s.view c)
              cases hrun.symm.trans hp
          | ok p =>
              exact openEvent_oneOpen_iff (s := s.view c) hone hserved hrun
  | closing line entries lines =>
      cases entries with
      | nil => exact hquiet nofun hone
      | cons entry entries =>
          refine hquiet nofun ?_
          simp only [EventClients.step]
          cases hrun : closeEvent c answers line (s.view c) entry with
          | error f => exact hone
          | ok p => exact closeEvent_oneOpen (s := s.view c) hone hrun
  | storing line lines =>
      refine hquiet nofun ?_
      simp only [EventClients.step]
      cases hrun : storeSample c line (s.view c) with
      | error f => exact hone
      | ok p =>
          obtain ⟨stmt, rfl⟩ := storeSample_cases hrun
          exact hone

theorem move_oneOpen_iff (h : s.Grounded) (hone : s.OneOpen) (move : ClientMove)
    (hserved : s.Served answers move) : (s.move answers move).OneOpen ↔ s.Informed move := by
  cases move with
  | init n c =>
      refine iff_of_true ?_ trivial
      simp only [EventClients.move]
      split <;> exact hone
  | parse n data =>
      refine iff_of_true ?_ trivial
      simp only [EventClients.move]
      split <;> exact hone
  | step n =>
      cases hclient : s.clients n with
      | none =>
          have hidle : s.move answers (.step n) = s := by
            simp only [EventClients.move, hclient]
          rw [hidle]
          refine iff_of_true hone fun d line e rules lines hd => ?_
          cases hclient.symm.trans hd
      | some bound =>
          obtain ⟨c, point⟩ := bound
          have hstep : s.move answers (.step n) = s.step answers n c point := by
            simp only [EventClients.move, hclient]
          rw [hstep]
          exact step_oneOpen_iff h hone hclient (hserved c point hclient)

/-! ### Without interruption -/

/-- The client alone goes on from one state to the other. -/
def Alone (answers : ℕ → Answer) (n : ℕ) (s t : EventClients) : Prop :=
  ∃ k, (List.replicate k (ClientMove.step n)).foldl (EventClients.move answers) s = t

section alone

variable {t u : EventClients} {line : Json} {lines : List Json}

theorem Alone.refl (answers : ℕ → Answer) (n : ℕ) (s : EventClients) : Alone answers n s s :=
  ⟨0, rfl⟩

theorem Alone.trans (h : Alone answers n s t) (h' : Alone answers n t u) : Alone answers n s u := by
  obtain ⟨k, rfl⟩ := h
  obtain ⟨k', rfl⟩ := h'
  refine ⟨k + k', ?_⟩
  rw [List.replicate_add, List.foldl_append]

theorem Alone.head (hclient : s.clients n = some ⟨c, point⟩)
    (h : Alone answers n (s.step answers n c point) t) : Alone answers n s t := by
  have hfirst : Alone answers n s (s.step answers n c point) := by
    refine ⟨1, ?_⟩
    simp only [List.replicate_one, List.foldl_cons, List.foldl_nil, EventClients.move, hclient]
  exact hfirst.trans h

theorem put_clients (s : EventClients) (n : ℕ) (c : RessourceClient) (point : ParsePoint) :
    (s.put n c point).clients n = some ⟨c, point⟩ :=
  Function.update_self ..

theorem adopt_clients (s : EventClients) (n : ℕ) (c : RessourceClient) (point : ParsePoint)
    (p : ParseState) :
    (s.adopt n c point p).clients n = some ⟨{ c with currentEvents := p.currentEvents }, point⟩ :=
  Function.update_self ..

/-- What a client leaves behind hides what it left behind before. -/
theorem adopt_adopt (s : EventClients) (n : ℕ) (c : RessourceClient) (point point' : ParsePoint)
    (p p' : ParseState) :
    (s.adopt n c point p).adopt n { c with currentEvents := p.currentEvents } point' p' =
      s.adopt n c point' p' := by
  simp [EventClients.adopt]

theorem adopt_put (s : EventClients) (n : ℕ) (c : RessourceClient) (point point' : ParsePoint)
    (p : ParseState) :
    (s.adopt n c point p).put n { c with currentEvents := p.currentEvents } point' =
      s.adopt n c point' p := by
  simp [EventClients.adopt, EventClients.put]

theorem adopt_view (s : EventClients) (n : ℕ) (c : RessourceClient) (point : ParsePoint) :
    s.adopt n c point (s.view c) = s.put n c point := rfl

/-- The opening loop, from what the rules before have left behind. -/
theorem alone_opening {rules : List ResEvent} {p p' : ParseState}
    (hrun : rules.foldlM (openEvent c answers line) p = .ok p') :
    Alone answers n (s.adopt n c (.opening line rules lines) p)
      (s.adopt n c (.closing line p'.currentEvents.toList lines) p') := by
  induction rules generalizing p with
  | nil =>
      cases hrun
      apply Alone.head (adopt_clients ..)
      simp only [EventClients.step, adopt_put]
      exact .refl ..
  | cons e rules ih =>
      obtain ⟨m, hm, hrest⟩ := Fallible.foldlM_cons_eq_ok.mp hrun
      have hm' : openEvent { c with currentEvents := p.currentEvents } answers line
          ((s.adopt n c (.opening line (e :: rules) lines) p).view
            { c with currentEvents := p.currentEvents }) e = .ok m := hm
      apply Alone.head (adopt_clients ..)
      simp only [EventClients.step, hm', EventClients.proceed, adopt_adopt]
      exact ih hrest

theorem alone_closing {entries : List (ℕ × ResEvent)} {p p' : ParseState}
    (hrun : entries.foldlM (closeEvent c answers line) p = .ok p') :
    Alone answers n (s.adopt n c (.closing line entries lines) p)
      (s.adopt n c (.storing line lines) p') := by
  induction entries generalizing p with
  | nil =>
      cases hrun
      apply Alone.head (adopt_clients ..)
      simp only [EventClients.step, adopt_put]
      exact .refl ..
  | cons entry entries ih =>
      obtain ⟨m, hm, hrest⟩ := Fallible.foldlM_cons_eq_ok.mp hrun
      have hm' : closeEvent { c with currentEvents := p.currentEvents } answers line
          ((s.adopt n c (.closing line (entry :: entries) lines) p).view
            { c with currentEvents := p.currentEvents }) entry = .ok m := hm
      apply Alone.head (adopt_clients ..)
      simp only [EventClients.step, hm', EventClients.proceed, adopt_adopt]
      exact ih hrest

theorem alone_lines {p p' : ParseState} (hrun : parseLines c answers p lines = .ok p') :
    Alone answers n (s.adopt n c (.ofLines c lines) p) (s.adopt n c .idle p') := by
  induction lines generalizing p with
  | nil =>
      cases hrun
      exact .refl ..
  | cons line lines ih =>
      obtain ⟨m, hm, hrest⟩ := Fallible.foldlM_cons_eq_ok.mp hrun
      obtain ⟨opened, ho, hm⟩ := bind_eq_ok.mp hm
      obtain ⟨closed, hcl, hst⟩ := bind_eq_ok.mp hm
      refine (alone_opening ho).trans ((alone_closing hcl).trans ?_)
      have hst' : storeSample { c with currentEvents := closed.currentEvents } line
          ((s.adopt n c (.storing line lines) closed).view
            { c with currentEvents := closed.currentEvents }) = .ok m := hst
      apply Alone.head (adopt_clients ..)
      simp only [EventClients.step, hst', EventClients.proceed, adopt_adopt]
      exact ih hrest

/-- A client that is not interrupted runs `parse`. -/
theorem parse_uninterrupted {data : Json} (hclient : s.clients n = some ⟨c, .idle⟩)
    (hrun : parse c answers (s.view c) data = .ok p) :
    Alone answers n (s.move answers (.parse n data)) (s.adopt n c .idle p) := by
  have hbegin : s.move answers (.parse n data) = s.adopt n c (.ofLines c data.elements) (s.view c) := by
    simp only [EventClients.move, hclient, adopt_view]
  rw [hbegin]
  exact alone_lines hrun

/-- A client that is not interrupted runs `init`. -/
theorem init_uninterrupted (hnew : c.IsNew) (hclient : s.clients n = none) :
    Alone answers n (s.move answers (.init n c)) (s.put n (c.init s.db) .idle) := by
  have hbegin : s.move answers (.init n c) = s.put n (c.loadEvents s.db) .factory := by
    have hsame : ({ c with currentEvents := ∅, eventFactory := [] } : RessourceClient) = c := by
      rw [← hnew.1, ← hnew.2]
    simp only [EventClients.move, hclient, hsame]
  rw [hbegin]
  apply Alone.head (put_clients ..)
  have hload : (s.put n (c.loadEvents s.db) .factory).step answers n (c.loadEvents s.db) .factory =
      s.put n (c.init s.db) .idle := by
    simp only [EventClients.step, EventClients.put, Function.update_idem]
    rfl
  rw [hload]
  exact .refl ..

end alone

end EventClients

/-- In any interleaving of the clients' statements, no two open rows are ever about the same if
and only if a client that opens an event has itself loaded or inserted every open row about it. -/
theorem one_open_event_iff {answers : ℕ → Answer} {db : Database} (hone : db.OneOpen)
    (hids : ∀ isService, 0 ∉ (db.resEvents isService).ids) (moves : List ClientMove)
    (hserved : EachStep (EventClients.move answers) (EventClients.Served answers) (.start db) moves) :
    Always (EventClients.move answers) EventClients.OneOpen (.start db) moves ↔
      EachStep (EventClients.move answers) EventClients.Informed (.start db) moves := by
  apply always_iff_eachStep_of EventClients.Grounded (EventClients.Served answers)
  · exact fun s move hs => hs.move move
  · exact fun s move hs hserved hone => EventClients.move_oneOpen_iff hs hone move hserved
  · exact EventClients.grounded_start hids
  · exact hone
  · exact hserved

/-! ### Two backends with one disk -/

/-- Both clients watch the disk; the second is made when the first has opened the event. -/
def clientsInTurn : List ClientMove :=
  [.init 0 newDisk, .step 0, .parse 0 (.arr [diskLine 1 10]), .step 0, .init 1 newDisk, .step 1,
    .parse 1 (.arr [diskLine 2 10]), .step 1]

/-- Both clients are made before either opens the event. -/
def clientsAtOnce : List ClientMove :=
  [.init 0 newDisk, .step 0, .init 1 newDisk, .step 1, .parse 0 (.arr [diskLine 1 10]), .step 0,
    .parse 1 (.arr [diskLine 2 10]), .step 1]

namespace EventClients

variable {s : EventClients} {move : ClientMove}

/-- The next of the counted ids is no row's. -/
def nextIsNew (s : EventClients) : ClientMove → Bool
  | .step _ => [false, true].all fun isService =>
      decide (s.log.length + 1 ∉ (s.db.resEvents isService).ids)
  | _ => true

theorem served_countedIds (h : s.nextIsNew move = true) : s.Served countedIds move := by
  cases move with
  | init n c => trivial
  | parse n data => trivial
  | step n =>
      intro c point _
      refine ⟨s.log.length + 1, rfl, by omega, ?_⟩
      have hnew := List.all_eq_true.mp h c.isService (by cases c.isService <;> decide)
      exact of_decide_eq_true hnew

/-- The client has loaded or inserted every row. -/
def knowsRows (s : EventClients) : ClientMove → Bool
  | .step n => (s.clients n).all fun b => (s.db.resEvents b.client.isService).rows.all fun row =>
      b.client.currentEvents.contains row.id
  | _ => true

theorem informed_of_known (h : s.knowsRows move = true) : s.Informed move := by
  cases move with
  | init n c => trivial
  | parse n data => trivial
  | step n =>
      intro c line e rules lines hclient _ row hrow _ _
      simp only [knowsRows, hclient, Option.all_some, List.all_eq_true] at h
      exact h row hrow

end EventClients

theorem oneOpen_diskDatabase : diskDatabase.OneOpen := by
  intro isService
  cases isService <;> exact List.nodup_nil

theorem served_clientsInTurn :
    EachStep (EventClients.move countedIds) (EventClients.Served countedIds)
      (.start diskDatabase) clientsInTurn :=
  eachStep_of_testSteps (fun _ _ => EventClients.served_countedIds) (by decide +kernel)

theorem one_open_event_in_turn :
    Always (EventClients.move countedIds) EventClients.OneOpen (.start diskDatabase)
      clientsInTurn := by
  apply (one_open_event_iff oneOpen_diskDatabase (by decide +kernel) clientsInTurn
    served_clientsInTurn).mpr
  exact eachStep_of_testSteps (fun _ _ => EventClients.informed_of_known) (by decide +kernel)

/-- Each of the clients opens the event, as its own map has none. -/
theorem disk_has_two_open_events :
    EachStep (EventClients.move countedIds) (EventClients.Served countedIds)
        (.start diskDatabase) clientsAtOnce ∧
      ¬ Always (EventClients.move countedIds) EventClients.OneOpen (.start diskDatabase)
        clientsAtOnce := by
  constructor
  · exact eachStep_of_testSteps (fun _ _ => EventClients.served_countedIds) (by decide +kernel)
  · intro h
    have hone := h clientsAtOnce [] (by simp) false
    have htwo : ¬ (openSubjects ((clientsAtOnce.foldl (EventClients.move countedIds)
        (.start diskDatabase)).db.resEvents false).rows).Nodup := by
      decide +kernel
    exact htwo hone

end WatchedBack
