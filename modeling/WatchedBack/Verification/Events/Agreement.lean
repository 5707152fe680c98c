import WatchedBack.Verification.Events.Lifecycle

/-! # Open events in memory and in the database

As long as no insert of an event and no closing update fails, `current_events` holds the
rows of the client that have no end time, and `init` would load the same map again. -/

namespace WatchedBack

open Fallible

/-- The map holds the open rows of the client, under their ids and with their rule fields. -/
def Agrees (c : RessourceClient) (m : EventMap) (table : EventTable) : Prop :=
  ∀ (k : ℕ) (e : ResEvent), m[k]? = some e ↔
    ∃ row ∈ table.rows, c.owns row = true ∧ row.id = k ∧ row.event = e

def ParseState.Agrees (c : RessourceClient) (s : ParseState) : Prop :=
  WatchedBack.Agrees c s.currentEvents (s.db.resEvents c.isService)

/-- The value of the rule is one that a column can hold. -/
def ResEvent.Storable (e : ResEvent) : Prop := (Column.ofRat e.value).toRat = e.value

theorem EventRow.opened_event {e : ResEvent} (he : e.Storable) (id ownerId resId : ℕ)
    (ts current : ℚ) : (EventRow.opened id ownerId resId ts e current).event = e := by
  obtain ⟨t, p, o, v⟩ := e
  simp [EventRow.opened, EventRow.event, show (Column.ofRat v).toRat = v from he]

/-- A map that agrees with a table is determined by it. -/
theorem Agrees.unique {c : RessourceClient} {m m' : EventMap} {table : EventTable}
    (h : Agrees c m table) (h' : Agrees c m' table) : m = m' := by
  apply Std.ExtTreeMap.ext_getElem?
  intro k
  apply Option.ext
  intro e
  exact (h k e).trans (h' k e).symm

/-! ### The statements -/

section statements

variable {c : RessourceClient} {m : EventMap} {table : EventTable} {k id : ℕ} {e : ResEvent}

theorem mem_rows_update {change : EventRow → EventRow} {hid : ∀ row, (change row).id = row.id}
    {row : EventRow} :
    row ∈ (table.update id change hid).rows ↔
      ∃ old ∈ table.rows, (if old.id = id then change old else old) = row :=
  List.mem_map

theorem Agrees.setCurrentValue (h : Agrees c m table) (rowId : ℕ) (current : ℚ) (answer : Answer) :
    Agrees c m (table.exec (.setCurrentValue rowId current) answer).1 := by
  cases answer with
  | failed => exact h
  | ok id =>
      intro k e
      rw [h k e]
      simp only [EventTable.exec, mem_rows_update]
      constructor
      · rintro ⟨row, hrow, hown, hk, he⟩
        refine ⟨_, ⟨row, hrow, rfl⟩, ?_⟩
        split <;> exact ⟨hown, hk, he⟩
      · rintro ⟨-, ⟨row, hrow, rfl⟩, hown, hk, he⟩
        refine ⟨row, hrow, ?_⟩
        split at hown <;> split at hk <;> split at he <;> exact ⟨hown, hk, he⟩

theorem Agrees.absent_of_fresh (h : Agrees c m table) (hfresh : id ∉ table.ids) :
    m[id]? = none := by
  cases hm : m[id]? with
  | none => rfl
  | some e =>
      obtain ⟨row, hrow, -, hid, -⟩ := (h id e).mp hm
      exact absurd (List.mem_map.mpr ⟨row, hrow, hid⟩) hfresh

theorem Agrees.insert (h : Agrees c m table) (hfresh : id ∉ table.ids) (he : e.Storable)
    (ts current : ℚ) :
    Agrees c (m.insert id e)
      (table.exec (.insertEvent c.hostId c.resId ts e current) (.ok id)).1 := by
  intro k f
  rw [(EventTable.exec_insert_of_fresh c.hostId c.resId ts e current hfresh).2]
  have hnew : c.owns (EventRow.opened id c.hostId c.resId ts e current) = true := by
    simp [RessourceClient.owns, EventRow.opened]
  have hnone := h.absent_of_fresh hfresh
  simp only [List.mem_append, List.mem_singleton, or_and_right, exists_or, ← h k f,
    exists_eq_left, hnew, true_and, EventRow.opened_event he]
  rw [Std.ExtTreeMap.getElem?_insert]
  by_cases hk : id = k
  · subst hk
    simp [hnone, EventRow.opened]
  · simp [hk, EventRow.opened]

theorem Agrees.setEndTime (h : Agrees c m table) (id k : ℕ) (ts : ℚ) :
    Agrees c (m.erase k) (table.exec (.setEndTime k ts) (.ok id)).1 := by
  intro j e
  simp only [EventTable.exec, mem_rows_update, Std.ExtTreeMap.getElem?_erase, compare_eq_iff_eq]
  by_cases hj : k = j
  · subst hj
    simp only [if_true, reduceCtorEq, false_iff]
    rintro ⟨-, ⟨row, -, rfl⟩, hown, hid, -⟩
    by_cases hrow : row.id = k
    · simp [hrow, RessourceClient.owns] at hown
    · rw [if_neg hrow] at hid
      exact hrow hid
  · rw [if_neg hj, h j e]
    constructor
    · rintro ⟨row, hrow, hown, hid, he⟩
      refine ⟨row, ⟨row, hrow, ?_⟩, hown, hid, he⟩
      rw [if_neg (by omega)]
    · rintro ⟨-, ⟨row, hrow, rfl⟩, hown, hid, he⟩
      by_cases hk : row.id = k
      · rw [if_pos hk] at hid
        exact absurd (hk.symm.trans hid) hj
      · rw [if_neg hk] at hown hid he
        exact ⟨row, hrow, hown, hid, he⟩

end statements

/-! ### The loops -/

section run

variable {c : RessourceClient} {answers : ℕ → Answer} {line : Json} {s s' : ParseState}

theorem openEvent_agrees {e : ResEvent} (hT : Tracked answers c s) (hA : s.Agrees c)
    (hU : s'.Unharmed) (he : e.Storable) (h : openEvent c answers line s e = .ok s') :
    s'.Agrees c := by
  rcases openEvent_cases h with ⟨-, rfl⟩ | ⟨-, -, current, rfl⟩ | ⟨-, -, ts, current, value, rfl⟩
  · exact hA
  · unfold ParseState.Agrees
    rw [exec_resEvents]
    exact hA.setCurrentValue _ _ _
  · obtain ⟨id, hid⟩ := answer_ok_of_unharmed c (.insertEvent c.hostId c.resId ts e current) hU rfl
    have hfresh := hT.fresh.not_row _ id le_rfl hid
    unfold ParseState.Agrees
    rw [exec_insertId, hid, (EventTable.exec_insert_of_fresh _ _ ts e current hfresh).1]
    have h' := hA.insert hfresh he ts current
    simpa [hid] using h'

theorem closeEvent_agrees {entry : ℕ × ResEvent} (hA : s.Agrees c) (hU : s'.Unharmed)
    (h : closeEvent c answers line s entry = .ok s') : s'.Agrees c := by
  rcases closeEvent_cases h with ⟨-, rfl⟩ | ⟨-, ts, rfl⟩
  · exact hA
  · obtain ⟨id, hid⟩ := answer_ok_of_unharmed c (.setEndTime entry.1 ts) hU rfl
    have h' := hA.setEndTime id entry.1 ts
    unfold ParseState.Agrees
    simpa [hid] using h'

/-- A loop that harms nothing has harmed nothing on its way. -/
theorem foldlM_unharmed_invariant {α : Type} {f : ParseState → α → Except Fault ParseState}
    {xs : List α} (P : ParseState → Prop)
    (hlog : ∀ t t' x, f t x = .ok t' → t.log <+: t'.log)
    (hstep : ∀ t t', ∀ x ∈ xs, P t → t'.Unharmed → f t x = .ok t' → P t')
    (hs : P s) (hU : s'.Unharmed) (h : xs.foldlM f s = .ok s') : P s' := by
  induction xs generalizing s with
  | nil =>
      cases h
      exact hs
  | cons x xs ih =>
      obtain ⟨m, hm, hrest⟩ := foldlM_cons_eq_ok.mp h
      have hbefore : m.log <+: s'.log :=
        foldlM_invariant (fun t => m.log <+: t.log)
          (fun t t' y _ ht hy => ht.trans (hlog t t' y hy)) List.prefix_rfl hrest
      refine ih (fun t t' y hy => hstep t t' y (List.mem_cons_of_mem x hy)) ?_ hrest
      exact hstep s m x List.mem_cons_self hs (hU.of_prefix hbefore) hm

theorem parseLine_agrees (hrules : ∀ e ∈ c.eventFactory, e.Storable) (hT : Tracked answers c s)
    (hA : s.Agrees c) (hU : s'.Unharmed) (h : parseLine c answers line s = .ok s') :
    s'.Agrees c := by
  obtain ⟨opened, closed, ho, hcl, stmt, rfl⟩ := parseLine_cases h
  have hlog : opened.log <+: closed.log :=
    foldlM_invariant (fun t => opened.log <+: t.log)
      (fun t t' x _ ht hx => ht.trans (closeEvent_log hx)) List.prefix_rfl hcl
  have h₁ : Tracked answers c opened ∧ opened.Agrees c := by
    refine foldlM_unharmed_invariant (fun t => Tracked answers c t ∧ t.Agrees c)
      (fun t t' e ht => openEvent_log e ht) ?_ ⟨hT, hA⟩ (ParseState.Unharmed.of_prefix hU hlog) ho
    rintro t t' e he ⟨hTt, hAt⟩ hUt hstep
    exact ⟨(openEvent_tracked hTt hUt hstep).1, openEvent_agrees hTt hAt hUt (hrules e he) hstep⟩
  have h₂ : closed.Agrees c :=
    foldlM_unharmed_invariant (fun t => t.Agrees c) (fun t t' entry ht => closeEvent_log ht)
      (fun t t' entry _ hAt hUt hstep => closeEvent_agrees hAt hUt hstep) h₁.2 hU hcl
  exact h₂

theorem parseLines_agrees {lines : List Json} (hrules : ∀ e ∈ c.eventFactory, e.Storable)
    (hT : Tracked answers c s) (hA : s.Agrees c) (hU : s'.Unharmed)
    (h : parseLines c answers s lines = .ok s') : s'.Agrees c := by
  have hrun : Tracked answers c s' ∧ s'.Agrees c := by
    refine foldlM_unharmed_invariant (fun t => Tracked answers c t ∧ t.Agrees c)
      (fun t t' line ht => parseLine_log ht) ?_ ⟨hT, hA⟩ hU h
    rintro t t' line _ ⟨hTt, hAt⟩ hUt hstep
    exact ⟨(parseLine_tracked hTt hUt hstep).1, parseLine_agrees hrules hTt hAt hUt hstep⟩
  exact hrun.2

end run

/-! ### Loading the client -/

namespace RessourceClient

variable {c : RessourceClient} {db : Database}

/-- A client as its constructor leaves it: nothing loaded yet. -/
def IsNew (c : RessourceClient) : Prop := c.eventFactory = [] ∧ c.currentEvents = ∅

@[simp] theorem init_isService : (c.init db).isService = c.isService := rfl

@[simp] theorem init_owns (row : EventRow) : (c.init db).owns row = c.owns row := rfl

theorem init_eventFactory (hnew : c.IsNew) :
    (c.init db).eventFactory =
      ((db.eventFactory c.isService).filter c.applies).map FactoryRow.event := by
  change c.eventFactory ++ _ = _
  rw [hnew.1, List.nil_append]
  rfl

/-- The rules that `init` loads come from a column. -/
theorem init_storable (hnew : c.IsNew) : ∀ e ∈ (c.init db).eventFactory, e.Storable := by
  intro e he
  rw [init_eventFactory hnew] at he
  obtain ⟨row, -, rfl⟩ := List.mem_map.mp he
  simp [ResEvent.Storable, FactoryRow.event]

theorem foldl_insert_lookup (rows : List EventRow) (hnodup : (rows.map EventRow.id).Nodup)
    (m : EventMap) (hm : ∀ row ∈ rows, m[row.id]? = none) (k : ℕ) (e : ResEvent) :
    (rows.foldl (fun m row => m.insert row.id row.event) m)[k]? = some e ↔
      m[k]? = some e ∨ ∃ row ∈ rows, row.id = k ∧ row.event = e := by
  induction rows generalizing m with
  | nil => simp
  | cons row rest ih =>
      rw [List.map_cons, List.nodup_cons] at hnodup
      obtain ⟨hnotin, hrest⟩ := hnodup
      have hne : ∀ other ∈ rest, row.id ≠ other.id := fun other hother heq =>
        hnotin (heq ▸ List.mem_map_of_mem hother)
      have hm' : ∀ other ∈ rest, (m.insert row.id row.event)[other.id]? = none := by
        intro other hother
        rw [Std.ExtTreeMap.getElem?_insert]
        simp [hne other hother, hm other (List.mem_cons_of_mem _ hother)]
      rw [List.foldl_cons, ih hrest _ hm', Std.ExtTreeMap.getElem?_insert]
      by_cases hk : row.id = k
      · subst hk
        simp [hm row List.mem_cons_self]
      · simp [hk]

/-- `init` loads the open rows of the client. -/
theorem init_agrees (hnew : c.IsNew) :
    Agrees (c.init db) (c.init db).currentEvents (db.resEvents c.isService) := by
  intro k e
  have hsub : (((db.resEvents c.isService).rows.filter c.owns).map EventRow.id).Nodup :=
    (db.resEvents c.isService).keyed.sublist (List.filter_sublist.map _)
  change (((db.resEvents c.isService).rows.filter c.owns).foldl
    (fun m row => m.insert row.id row.event) c.currentEvents)[k]? = some e ↔ _
  rw [foldl_insert_lookup _ hsub _ (by simp [hnew.2]), hnew.2]
  simp [and_assoc]

end RessourceClient

end WatchedBack
