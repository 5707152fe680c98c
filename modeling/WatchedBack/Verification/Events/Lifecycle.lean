import WatchedBack.Verification.Events.Faults
import WatchedBack.Library.Monitor

/-! # Event lifecycle

A rule is open exactly while the latest line that carries its property satisfies it,
and an alert is sent exactly when it is opened. -/

namespace WatchedBack

open Fallible

/-- Some entry of `current_events` is equal to `r`. -/
def ParseState.IsOpen (s : ParseState) (r : ResEvent) : Prop :=
  ∃ k : ℕ, s.currentEvents[k]? = some r

/-- The number of alerts sent for `r`. -/
def ParseState.alertsFor (s : ParseState) (r : ResEvent) : ℕ :=
  s.alerts.countP fun a => a.event = r

/-- No two entries are equal. -/
def DistinctEvents (m : EventMap) : Prop :=
  ∀ (k k' : ℕ) (e : ResEvent), m[k]? = some e → m[k']? = some e → k = k'

/-- The ids of inserts are handed out once, are not 0, and are taken neither by a row of
the table nor by an open event. -/
structure FreshIds (answers : ℕ → Answer) (c : RessourceClient) (s : ParseState) : Prop where
  ne_zero : ∀ n id, answers n = .ok id → id ≠ 0
  once : ∀ m n id, answers m = .ok id → answers n = .ok id → m = n
  not_open : ∀ n id, s.log.length ≤ n → answers n = .ok id → id ∉ s.currentEvents
  not_row : ∀ n id, s.log.length ≤ n → answers n = .ok id →
    id ∉ (s.db.resEvents c.isService).ids

/-- Inserts of events and closing updates; the update of a current value is not among them. -/
def EventStmt.critical : EventStmt → Bool
  | .setCurrentValue _ _ => false
  | _ => true

/-- No insert of an event and no closing update has failed. -/
def ParseState.Unharmed (s : ParseState) : Prop :=
  ∀ entry ∈ s.log, entry.1.critical = true → entry.2 ≠ .failed

/-- The invariant of `parse` as long as no critical statement fails. -/
structure Tracked (answers : ℕ → Answer) (c : RessourceClient) (s : ParseState) : Prop where
  zero : 0 ∉ s.currentEvents
  fresh : FreshIds answers c s

theorem mem_iff_exists_lookup {m : EventMap} {k : ℕ} : k ∈ m ↔ ∃ e, m[k]? = some e := by
  rw [Std.ExtTreeMap.mem_iff_isSome_getElem?, Option.isSome_iff_exists]

/-! ### The table under one statement -/

namespace EventTable

variable {table : EventTable} {id : ℕ}

@[simp] theorem ids_update (change : EventRow → EventRow) (hid : ∀ row, (change row).id = row.id) :
    (table.update id change hid).ids = table.ids := by
  have hids : EventRow.id ∘ (fun row => if row.id = id then change row else row) = EventRow.id := by
    funext row
    simp only [Function.comp_apply]
    split
    · exact hid row
    · rfl
  simp [EventTable.ids, EventTable.update, List.map_map, hids]

theorem exec_insert_of_fresh (ownerId resId : ℕ) (ts : ℚ) (e : ResEvent) (current : ℚ)
    (h : id ∉ table.ids) :
    (table.exec (.insertEvent ownerId resId ts e current) (.ok id)).2 = id ∧
      (table.exec (.insertEvent ownerId resId ts e current) (.ok id)).1.rows =
        table.rows ++ [EventRow.opened id ownerId resId ts e current] := by
  simp [EventTable.exec, EventTable.insert, EventRow.opened, h]

@[simp] theorem exec_failed (stmt : EventStmt) : table.exec stmt .failed = (table, 0) := rfl

/-- A statement that is no insert leaves the ids of the table as they are. -/
theorem ids_exec_setCurrentValue (answer : Answer) (rowId : ℕ) (current : ℚ) :
    (table.exec (.setCurrentValue rowId current) answer).1.ids = table.ids := by
  cases answer with
  | failed => rfl
  | ok id => simp [EventTable.exec]

theorem ids_exec_setEndTime (answer : Answer) (rowId : ℕ) (ts : ℚ) :
    (table.exec (.setEndTime rowId ts) answer).1.ids = table.ids := by
  cases answer with
  | failed => rfl
  | ok id => simp [EventTable.exec]

end EventTable

section run

variable {c : RessourceClient} {answers : ℕ → Answer} {line : Json} {s s' : ParseState}
  {r : ResEvent}

/-! ### Executing one statement -/

@[simp] theorem exec_currentEvents (stmt : EventStmt) :
    (s.exec c answers stmt).1.currentEvents = s.currentEvents := rfl

@[simp] theorem exec_alerts (stmt : EventStmt) :
    (s.exec c answers stmt).1.alerts = s.alerts := rfl

@[simp] theorem exec_log (stmt : EventStmt) :
    (s.exec c answers stmt).1.log = s.log ++ [(stmt, answers s.log.length)] := rfl

@[simp] theorem exec_resEvents (stmt : EventStmt) :
    (s.exec c answers stmt).1.db.resEvents c.isService =
      ((s.db.resEvents c.isService).exec stmt (answers s.log.length)).1 :=
  Database.resEvents_setResEvents ..

@[simp] theorem exec_insertId (stmt : EventStmt) :
    (s.exec c answers stmt).2 =
      ((s.db.resEvents c.isService).exec stmt (answers s.log.length)).2 := rfl

theorem ParseState.Unharmed.of_prefix (h : s'.Unharmed) (hlog : s.log <+: s'.log) : s.Unharmed :=
  fun entry hentry => h entry (hlog.subset hentry)

theorem answer_ok_of_unharmed (c : RessourceClient) (stmt : EventStmt)
    (hU : (s.exec c answers stmt).1.Unharmed) (hstmt : stmt.critical = true) :
    ∃ id, answers s.log.length = .ok id := by
  have hlast := hU (stmt, answers s.log.length) (by simp) hstmt
  cases ha : answers s.log.length with
  | failed => exact absurd ha hlast
  | ok id => exact ⟨id, rfl⟩

/-- The map of open events before and after has the same entries for `r`, and no alert
was sent for it. -/
structure Unchanged (r : ResEvent) (s s' : ParseState) : Prop where
  lookup : ∀ k : ℕ, s'.currentEvents[k]? = some r ↔ s.currentEvents[k]? = some r
  alerts : s'.alertsFor r = s.alertsFor r

/-- `r` was not open, is open now, and one alert was sent for it. -/
structure Opened (r : ResEvent) (s s' : ParseState) : Prop where
  before : ¬ s.IsOpen r
  after : s'.IsOpen r
  alerts : s'.alertsFor r = s.alertsFor r + 1

theorem Unchanged.refl (r : ResEvent) (s : ParseState) : Unchanged r s s :=
  ⟨fun _ => Iff.rfl, rfl⟩

theorem Unchanged.trans {s₁ s₂ s₃ : ParseState} (h₁ : Unchanged r s₁ s₂)
    (h₂ : Unchanged r s₂ s₃) : Unchanged r s₁ s₃ :=
  ⟨fun k => (h₂.lookup k).trans (h₁.lookup k), h₂.alerts.trans h₁.alerts⟩

theorem Unchanged.isOpen_iff (h : Unchanged r s s') : s'.IsOpen r ↔ s.IsOpen r :=
  exists_congr h.lookup

theorem Opened.trans_unchanged {s₁ s₂ s₃ : ParseState} (h₁ : Opened r s₁ s₂)
    (h₂ : Unchanged r s₂ s₃) : Opened r s₁ s₃ :=
  ⟨h₁.before, h₂.isOpen_iff.mpr h₁.after, h₂.alerts.trans h₁.alerts⟩

theorem Unchanged.trans_opened {s₁ s₂ s₃ : ParseState} (h₁ : Unchanged r s₁ s₂)
    (h₂ : Opened r s₂ s₃) : Opened r s₁ s₃ :=
  ⟨fun h => h₂.before (h₁.isOpen_iff.mpr h), h₂.after, by rw [h₂.alerts, h₁.alerts]⟩

/-! ### The opening loop -/

theorem openEvent_log (e : ResEvent) (h : openEvent c answers line s e = .ok s') :
    s.log <+: s'.log := by
  rcases openEvent_cases h with ⟨-, rfl⟩ | ⟨-, -, current, rfl⟩ | ⟨-, -, ts, current, value, rfl⟩
  · exact List.prefix_rfl
  · exact List.prefix_append ..
  · exact List.prefix_append ..

theorem FreshIds.exec_setCurrentValue (h : FreshIds answers c s) (rowId : ℕ) (current : ℚ) :
    FreshIds answers c (s.exec c answers (.setCurrentValue rowId current)).1 := by
  refine ⟨h.ne_zero, h.once, ?_, ?_⟩
  · intro n id hn
    refine h.not_open n id ?_
    simp only [exec_log, List.length_append] at hn
    omega
  · intro n id hn
    rw [exec_resEvents, EventTable.ids_exec_setCurrentValue]
    refine h.not_row n id ?_
    simp only [exec_log, List.length_append] at hn
    omega

theorem FreshIds.exec_setEndTime (h : FreshIds answers c s) (rowId : ℕ) (ts : ℚ) :
    FreshIds answers c { (s.exec c answers (.setEndTime rowId ts)).1 with
      currentEvents := s.currentEvents.erase rowId } := by
  refine ⟨h.ne_zero, h.once, ?_, ?_⟩
  · intro n id hn hans hmem
    refine h.not_open n id ?_ hans (Std.ExtTreeMap.mem_of_mem_erase hmem)
    simp only [exec_log, List.length_append] at hn
    omega
  · intro n id hn
    simp only [exec_resEvents, EventTable.ids_exec_setEndTime]
    refine h.not_row n id ?_
    simp only [exec_log, List.length_append] at hn
    omega

/-- What one rule of the factory does to the invariant and to each event. -/
theorem openEvent_tracked {e : ResEvent} (hT : Tracked answers c s) (hU : s'.Unharmed)
    (h : openEvent c answers line s e = .ok s') :
    Tracked answers c s' ∧
      (DistinctEvents s.currentEvents → DistinctEvents s'.currentEvents) ∧
      ∀ r, (e = r ∧ r.verdict line = some true ∧ ¬ s.IsOpen r → Opened r s s') ∧
        (¬ (e = r ∧ r.verdict line = some true ∧ ¬ s.IsOpen r) → Unchanged r s s') := by
  rcases openEvent_cases h with ⟨hv, rfl⟩ | ⟨hv, hf, current, rfl⟩ | ⟨hv, hf, ts, current, value, rfl⟩
  · refine ⟨hT, id, fun r => ⟨?_, fun _ => Unchanged.refl r s'⟩⟩
    rintro ⟨rfl, hr, -⟩
    exact absurd hr hv
  · refine ⟨⟨hT.zero, hT.fresh.exec_setCurrentValue _ _⟩, id, fun r => ⟨?_, fun _ => ?_⟩⟩
    · rintro ⟨rfl, -, hr⟩
      exact absurd ⟨_, findEvent_spec hf⟩ hr
    · exact ⟨fun _ => Iff.rfl, rfl⟩
  · have habs : ∀ k : ℕ, s.currentEvents[k]? ≠ some e := absent_of_findEvent_eq_zero hT.zero hf
    -- the insert has not failed, so it was given an id that nothing uses
    obtain ⟨id, hid⟩ : ∃ id, answers s.log.length = .ok id :=
      answer_ok_of_unharmed c (.insertEvent c.hostId c.resId ts e current) hU rfl
    have hnew : id ∉ s.currentEvents := hT.fresh.not_open _ id le_rfl hid
    have hnone : s.currentEvents[id]? = none := Std.ExtTreeMap.getElem?_eq_none hnew
    obtain ⟨hins, hrows⟩ := EventTable.exec_insert_of_fresh c.hostId c.resId ts e current
      (hT.fresh.not_row _ id le_rfl hid)
    have hinsert : (s.exec c answers (.insertEvent c.hostId c.resId ts e current)).2 = id := by
      rw [exec_insertId, hid, hins]
    have hlook : ∀ (k : ℕ) (r : ResEvent), (s.currentEvents.insert id e)[k]? = some r ↔
        (k = id ∧ r = e) ∨ s.currentEvents[k]? = some r := by
      intro k r
      rw [Std.ExtTreeMap.getElem?_insert]
      by_cases hk : id = k
      · subst hk
        simp [hnone, eq_comm]
      · simp [hk, Ne.symm hk]
    rw [hinsert]
    refine ⟨⟨?_, ⟨hT.fresh.ne_zero, hT.fresh.once, ?_, ?_⟩⟩, ?_, fun r => ⟨?_, ?_⟩⟩
    · rw [mem_iff_exists_lookup]
      rintro ⟨f, hf'⟩
      rcases (hlook 0 f).mp hf' with ⟨h0, -⟩ | h0
      · exact hT.fresh.ne_zero _ id hid h0.symm
      · exact hT.zero (mem_iff_exists_lookup.mpr ⟨f, h0⟩)
    · intro n id' hn hans
      simp only [exec_log, List.length_append, List.length_singleton] at hn
      rw [mem_iff_exists_lookup]
      rintro ⟨f, hf'⟩
      rcases (hlook id' f).mp hf' with ⟨rfl, -⟩ | hf'
      · have := hT.fresh.once _ _ _ hid hans
        omega
      · exact hT.fresh.not_open n id' (by omega) hans (mem_iff_exists_lookup.mpr ⟨f, hf'⟩)
    · intro n id' hn hans
      simp only [exec_log, List.length_append, List.length_singleton] at hn
      simp only [exec_resEvents, hid, EventTable.ids, hrows, List.map_append, List.map_cons,
        List.map_nil, List.mem_append, List.mem_singleton, not_or]
      refine ⟨hT.fresh.not_row n id' (by omega) hans, ?_⟩
      rintro rfl
      have := hT.fresh.once _ _ _ hid hans
      omega
    · intro hdistinct k k' f hk hk'
      rcases (hlook k f).mp hk with ⟨hid₁, hf₁⟩ | hold₁
      · rcases (hlook k' f).mp hk' with ⟨hid₂, -⟩ | hold₂
        · rw [hid₁, hid₂]
        · exact absurd (hf₁ ▸ hold₂) (habs k')
      · rcases (hlook k' f).mp hk' with ⟨-, hf₂⟩ | hold₂
        · exact absurd (hf₂ ▸ hold₁) (habs k)
        · exact hdistinct k k' f hold₁ hold₂
    · rintro ⟨rfl, -, hr⟩
      refine ⟨hr, ⟨id, (hlook id e).mpr (Or.inl ⟨rfl, rfl⟩)⟩, ?_⟩
      simp [ParseState.alertsFor]
    · intro hr
      have hne : e ≠ r := by
        rintro rfl
        have hclosed : ¬ s.IsOpen e := by
          rintro ⟨k, hk⟩
          exact habs k hk
        exact hr ⟨rfl, hv, hclosed⟩
      refine ⟨fun k => ?_, by simp [ParseState.alertsFor, hne]⟩
      rw [hlook k r]
      simp [Ne.symm hne]

/-- The opening loop opens the listed rules that the line satisfies and that are not open. -/
theorem openLoop_tracked {rules : List ResEvent} (hT : Tracked answers c s) (hU : s'.Unharmed)
    (h : rules.foldlM (openEvent c answers line) s = .ok s') :
    Tracked answers c s' ∧
      (DistinctEvents s.currentEvents → DistinctEvents s'.currentEvents) ∧
      ∀ r, (r ∈ rules ∧ r.verdict line = some true ∧ ¬ s.IsOpen r → Opened r s s') ∧
        (¬ (r ∈ rules ∧ r.verdict line = some true ∧ ¬ s.IsOpen r) → Unchanged r s s') := by
  induction rules generalizing s with
  | nil =>
      cases h
      exact ⟨hT, id, fun r => ⟨by simp, fun _ => Unchanged.refl r s'⟩⟩
  | cons e rest ih =>
      obtain ⟨m, hm, hrest⟩ := foldlM_cons_eq_ok.mp h
      have hlog : m.log <+: s'.log := by
        refine foldlM_invariant (fun t => m.log <+: t.log) ?_ List.prefix_rfl hrest
        exact fun t t' x _ ht hx => ht.trans (openEvent_log x hx)
      obtain ⟨hTm, hdm, he⟩ := openEvent_tracked hT (hU.of_prefix hlog) hm
      obtain ⟨hT', hd', hr⟩ := ih hTm hrest
      refine ⟨hT', hd' ∘ hdm, fun r => ?_⟩
      by_cases hhead : e = r ∧ r.verdict line = some true ∧ ¬ s.IsOpen r
      · -- opened by this rule: the remaining ones find it open
        have hopened := (he r).1 hhead
        have hkeep := (hr r).2 fun h => h.2.2 hopened.after
        refine ⟨fun _ => hopened.trans_unchanged hkeep, fun hn => absurd ?_ hn⟩
        exact ⟨hhead.1 ▸ List.mem_cons_self, hhead.2⟩
      · have hsame := (he r).2 hhead
        constructor
        · rintro ⟨hmem, hv, hclosed⟩
          have hmem' : r ∈ rest := by
            rcases List.mem_cons.mp hmem with rfl | hmem
            · exact absurd ⟨rfl, hv, hclosed⟩ hhead
            · exact hmem
          exact hsame.trans_opened ((hr r).1 ⟨hmem', hv, fun h => hclosed (hsame.isOpen_iff.mp h)⟩)
        · intro hn
          refine hsame.trans ((hr r).2 ?_)
          rintro ⟨hmem, hv, hclosed⟩
          exact hn ⟨List.mem_cons_of_mem e hmem, hv, fun h => hclosed (hsame.isOpen_iff.mpr h)⟩

/-! ### The closing loop -/

theorem closeEvent_log {entry : ℕ × ResEvent} (h : closeEvent c answers line s entry = .ok s') :
    s.log <+: s'.log := by
  rcases closeEvent_cases h with ⟨-, rfl⟩ | ⟨-, ts, rfl⟩
  · exact List.prefix_rfl
  · exact List.prefix_append ..

/-- The closing loop erases the visited events that the line ends, and nothing else. -/
theorem closeLoop_lookup {entries : List (ℕ × ResEvent)}
    (h : entries.foldlM (closeEvent c answers line) s = .ok s') (k : ℕ) (r : ResEvent) :
    s'.currentEvents[k]? = some r ↔
      s.currentEvents[k]? = some r ∧ ∀ e, (k, e) ∈ entries → e.verdict line ≠ some false := by
  induction entries generalizing s with
  | nil =>
      cases h
      simp
  | cons entry rest ih =>
      obtain ⟨m, hm, hrest⟩ := foldlM_cons_eq_ok.mp h
      obtain ⟨id, f⟩ := entry
      rw [ih hrest]
      rcases closeEvent_cases hm with ⟨hv, rfl⟩ | ⟨hv, ts, rfl⟩
      · refine and_congr_right fun _ => ⟨?_, ?_⟩
        · intro hall e he
          rcases List.mem_cons.mp he with heq | he
          · cases heq
            exact hv
          · exact hall e he
        · exact fun hall e he => hall e (List.mem_cons_of_mem _ he)
      · simp only [Std.ExtTreeMap.getElem?_erase]
        by_cases hk : id = k
        · subst hk
          simp only [compare_eq_iff_eq, if_true, reduceCtorEq, false_and, false_iff, not_and]
          exact fun _ hall => hall f List.mem_cons_self hv
        · simp only [compare_eq_iff_eq, hk, if_false]
          refine and_congr_right fun _ => ⟨?_, ?_⟩
          · intro hall e he
            rcases List.mem_cons.mp he with heq | he
            · cases heq
              exact absurd rfl hk
            · exact hall e he
          · exact fun hall e he => hall e (List.mem_cons_of_mem _ he)

theorem closeLoop_tracked {entries : List (ℕ × ResEvent)} (hT : Tracked answers c s)
    (h : entries.foldlM (closeEvent c answers line) s = .ok s') :
    Tracked answers c s' ∧ s'.alerts = s.alerts := by
  refine foldlM_invariant (fun t => Tracked answers c t ∧ t.alerts = s.alerts) ?_ ⟨hT, rfl⟩ h
  rintro t t' entry - ⟨ht, hal⟩ hstep
  rcases closeEvent_cases hstep with ⟨-, rfl⟩ | ⟨-, ts, rfl⟩
  · exact ⟨ht, hal⟩
  · refine ⟨⟨?_, ht.fresh.exec_setEndTime _ _⟩, hal⟩
    exact fun hmem => ht.zero (Std.ExtTreeMap.mem_of_mem_erase hmem)

/-! ### One line -/

theorem parseLine_log (h : parseLine c answers line s = .ok s') : s.log <+: s'.log := by
  refine parseLine_invariant (fun t => s.log <+: t.log) ?_ ?_ ?_ List.prefix_rfl h
  · exact fun t t' e ht hstep => ht.trans (openEvent_log e hstep)
  · exact fun t t' entry ht hstep => ht.trans (closeEvent_log hstep)
  · exact fun t inserts ht => ht

/-- The log holds the answers given. -/
def ParseState.Answered (answers : ℕ → Answer) (s : ParseState) : Prop :=
  ∀ entry ∈ s.log, ∃ n, answers n = entry.2

theorem ParseState.Answered.exec (h : s.Answered answers) (stmt : EventStmt) :
    (s.exec c answers stmt).1.Answered answers := by
  intro entry hentry
  rw [exec_log, List.mem_append, List.mem_singleton] at hentry
  rcases hentry with hold | rfl
  · exact h entry hold
  · exact ⟨_, rfl⟩

theorem parseLine_answered (hA : s.Answered answers) (h : parseLine c answers line s = .ok s') :
    s'.Answered answers := by
  refine parseLine_invariant (fun t => t.Answered answers) ?_ ?_ ?_ hA h
  · intro t t' e ht hstep
    rcases openEvent_cases hstep with ⟨-, rfl⟩ | ⟨-, -, current, rfl⟩ |
      ⟨-, -, ts, current, value, rfl⟩
    · exact ht
    · exact ht.exec _
    · exact (ht.exec (.insertEvent c.hostId c.resId ts e current) : ((t.exec c answers _).1).Answered _)
  · intro t t' entry ht hstep
    rcases closeEvent_cases hstep with ⟨-, rfl⟩ | ⟨-, ts, rfl⟩
    · exact ht
    · exact (ht.exec (.setEndTime entry.1 ts) : ((t.exec c answers _).1).Answered _)
  · exact fun t inserts ht => ht

/-- What a line does to the invariant and to each event: it closes what it does not
satisfy, opens the listed rules that it satisfies, and leaves the rest alone. -/
theorem parseLine_tracked (hT : Tracked answers c s) (hU : s'.Unharmed)
    (h : parseLine c answers line s = .ok s') :
    Tracked answers c s' ∧
      (DistinctEvents s.currentEvents → DistinctEvents s'.currentEvents) ∧
      ∀ r, (r.verdict line = some false → ¬ s'.IsOpen r ∧ s'.alertsFor r = s.alertsFor r) ∧
        (r ∈ c.eventFactory ∧ r.verdict line = some true ∧ ¬ s.IsOpen r → Opened r s s') ∧
        (r.verdict line ≠ some false →
          ¬ (r ∈ c.eventFactory ∧ r.verdict line = some true ∧ ¬ s.IsOpen r) →
          Unchanged r s s') := by
  obtain ⟨opened, closed, ho, hcl, stmt, rfl⟩ := parseLine_cases h
  have hlog : opened.log <+: closed.log :=
    foldlM_invariant (fun t => opened.log <+: t.log)
      (fun t t' x _ ht hx => ht.trans (closeEvent_log hx)) List.prefix_rfl hcl
  obtain ⟨hTo, hdo, hr⟩ := openLoop_tracked hT (ParseState.Unharmed.of_prefix hU hlog) ho
  obtain ⟨hTc, hal⟩ := closeLoop_tracked hTo hcl
  have hlook : ∀ (k : ℕ) (r : ResEvent), closed.currentEvents[k]? = some r ↔
      opened.currentEvents[k]? = some r ∧ r.verdict line ≠ some false := by
    intro k r
    rw [closeLoop_lookup hcl]
    refine and_congr_right fun hk => ⟨?_, ?_⟩
    · exact fun hall => hall r (Std.ExtTreeMap.mem_toList_iff_getElem?_eq_some.mpr hk)
    · intro hv e he
      have he' := Std.ExtTreeMap.mem_toList_iff_getElem?_eq_some.mp he
      rw [hk] at he'
      cases he'
      exact hv
  have hkeep : ∀ r, r.verdict line ≠ some false → Unchanged r opened closed := by
    intro r hv
    refine ⟨fun k => ?_, by rw [ParseState.alertsFor, hal, ParseState.alertsFor]⟩
    rw [hlook]
    exact and_iff_left hv
  refine ⟨⟨hTc.zero, hTc.fresh.ne_zero, hTc.fresh.once, hTc.fresh.not_open, hTc.fresh.not_row⟩,
    ?_, fun r => ⟨?_, ?_, ?_⟩⟩
  · intro hdistinct k k' e hk hk'
    exact hdo hdistinct k k' e ((hlook k e).mp hk).1 ((hlook k' e).mp hk').1
  · intro hv
    have hsame := (hr r).2 fun h => by simp [hv] at h
    refine ⟨fun ⟨k, hk⟩ => ((hlook k r).mp hk).2 hv, ?_⟩
    rw [← hsame.alerts]
    exact congrArg (List.countP fun a => a.event = r) hal
  · intro hopen
    have h₁ := ((hr r).1 hopen).trans_unchanged (hkeep r (by simp [hopen.2.1]))
    exact ⟨h₁.before, h₁.after, h₁.alerts⟩
  · intro hv hn
    have h₁ := ((hr r).2 hn).trans (hkeep r hv)
    exact ⟨h₁.lookup, h₁.alerts⟩

/-! ### Runs -/

theorem parseLines_append {pre post : List Json} :
    parseLines c answers s (pre ++ post) = .ok s' ↔
      ∃ m, parseLines c answers s pre = .ok m ∧ parseLines c answers m post = .ok s' :=
  foldlM_append_eq_ok

theorem parseLines_cons {post : List Json} :
    parseLines c answers s (line :: post) = .ok s' ↔
      ∃ m, parseLine c answers line s = .ok m ∧ parseLines c answers m post = .ok s' :=
  foldlM_cons_eq_ok

@[simp] theorem parseLines_nil : parseLines c answers s [] = .ok s := rfl

theorem parseLines_singleton : parseLines c answers s [line] = parseLine c answers line s := by
  unfold parseLines
  rw [List.foldlM_cons]
  cases parseLine c answers line s <;> rfl

theorem parseLines_log {lines : List Json} (h : parseLines c answers s lines = .ok s') :
    s.log <+: s'.log :=
  foldlM_invariant (fun t => s.log <+: t.log)
    (fun _ _ _ _ ht hx => ht.trans (parseLine_log hx)) List.prefix_rfl h

/-- Calls of `parse` handle the lines of one after those of the other. -/
theorem parseCalls_eq (calls : List Json) :
    calls.foldlM (parse c answers) s = parseLines c answers s (calls.flatMap Json.elements) := by
  induction calls generalizing s with
  | nil => rfl
  | cons data rest ih =>
      rw [List.foldlM_cons, List.flatMap_cons, parseLines, List.foldlM_append]
      exact congrArg _ (funext fun m => ih)

/-- How the entries for `r` follow from the latest line that carries its property. -/
def OpenAsLatest (m₀ m : EventMap) (lines : List Json) (r : ResEvent) : Prop :=
  match Monitor.latest (lines.map r.verdict) with
  | some true => ∃! k : ℕ, m[k]? = some r
  | some false => ∀ k : ℕ, m[k]? ≠ some r
  | none => ∀ k : ℕ, m[k]? = some r ↔ m₀[k]? = some r

theorem DistinctEvents.existsUnique_of_isOpen (hdistinct : DistinctEvents s.currentEvents)
    (h : s.IsOpen r) : ∃! k : ℕ, s.currentEvents[k]? = some r := by
  obtain ⟨k, hk⟩ := h
  exact ⟨k, hk, fun k' hk' => hdistinct k' k r hk' hk⟩

/-- The invariant after any run. -/
theorem parseLines_tracked {lines : List Json} (hT : Tracked answers c s) (hU : s'.Unharmed)
    (h : parseLines c answers s lines = .ok s') : Tracked answers c s' := by
  induction lines generalizing s with
  | nil =>
      cases h
      exact hT
  | cons line rest ih =>
      obtain ⟨m, hm, hrest⟩ := parseLines_cons.mp h
      exact ih (parseLine_tracked hT (hU.of_prefix (parseLines_log hrest)) hm).1 hrest

/-- The status of every rule of the factory after any run. -/
theorem parseLines_openAsLatest {lines : List Json} (hT : Tracked answers c s)
    (hdistinct : DistinctEvents s.currentEvents) (hU : s'.Unharmed)
    (h : parseLines c answers s lines = .ok s') :
    DistinctEvents s'.currentEvents ∧
      ∀ r ∈ c.eventFactory, OpenAsLatest s.currentEvents s'.currentEvents lines r := by
  induction lines using List.reverseRecOn generalizing s' with
  | nil =>
      cases h
      exact ⟨hdistinct, fun r _ => by simp [OpenAsLatest]⟩
  | append_singleton lines line ih =>
      obtain ⟨m, hm, hlast⟩ := parseLines_append.mp h
      rw [parseLines_singleton] at hlast
      have hUm := hU.of_prefix (parseLine_log hlast)
      obtain ⟨hdm, hr⟩ := ih hUm hm
      obtain ⟨-, hd', hline⟩ := parseLine_tracked (parseLines_tracked hT hUm hm) hU hlast
      refine ⟨hd' hdm, fun r hmem => ?_⟩
      obtain ⟨hfalse, hopens, hsame⟩ := hline r
      unfold OpenAsLatest
      rw [List.map_append, List.map_singleton, Monitor.latest_concat]
      match hv : r.verdict line with
      | some false =>
          simp only [Option.some_or]
          exact fun k hk => (hfalse hv).1 ⟨k, hk⟩
      | some true =>
          simp only [Option.some_or]
          refine (hd' hdm).existsUnique_of_isOpen ?_
          by_cases hopen : m.IsOpen r
          · exact (hsame (by simp [hv]) fun hn => hn.2.2 hopen).isOpen_iff.mpr hopen
          · exact (hopens ⟨hmem, hv, hopen⟩).after
      | none =>
          have hunch := hsame (by simp [hv]) (by simp [hv])
          have hbefore := hr r hmem
          unfold OpenAsLatest at hbefore
          rw [Option.none_or]
          split at hbefore
          · simpa only [hunch.lookup] using hbefore
          · simpa only [ne_eq, hunch.lookup] using hbefore
          · simpa only [hunch.lookup] using hbefore

/-- While no line ends it, an open event stays open and causes no alert. -/
theorem parseLines_of_isOpen {lines : List Json} (hT : Tracked answers c s) (hU : s'.Unharmed)
    (h : parseLines c answers s lines = .ok s') (hopen : s.IsOpen r)
    (hlines : ∀ l ∈ lines, r.verdict l ≠ some false) : Unchanged r s s' := by
  induction lines generalizing s with
  | nil =>
      cases h
      exact Unchanged.refl r _
  | cons line rest ih =>
      obtain ⟨m, hm, hrest⟩ := parseLines_cons.mp h
      obtain ⟨hTm, -, hline⟩ := parseLine_tracked hT (hU.of_prefix (parseLines_log hrest)) hm
      have hstep := (hline r).2.2 (hlines line List.mem_cons_self) fun hn => hn.2.2 hopen
      refine hstep.trans (ih hTm hrest (hstep.isOpen_iff.mpr hopen) ?_)
      exact fun l hl => hlines l (List.mem_cons_of_mem _ hl)

/-- While no line ends it, at most one alert is sent for an event. -/
theorem parseLines_alerts_le {lines : List Json} (hT : Tracked answers c s) (hU : s'.Unharmed)
    (h : parseLines c answers s lines = .ok s')
    (hlines : ∀ l ∈ lines, r.verdict l ≠ some false) :
    s'.alertsFor r ≤ s.alertsFor r + 1 := by
  induction lines generalizing s with
  | nil =>
      cases h
      exact Nat.le_succ _
  | cons line rest ih =>
      obtain ⟨m, hm, hrest⟩ := parseLines_cons.mp h
      obtain ⟨hTm, -, hline⟩ := parseLine_tracked hT (hU.of_prefix (parseLines_log hrest)) hm
      have hrest' : ∀ l ∈ rest, r.verdict l ≠ some false :=
        fun l hl => hlines l (List.mem_cons_of_mem _ hl)
      by_cases hopens : r ∈ c.eventFactory ∧ r.verdict line = some true ∧ ¬ s.IsOpen r
      · have hstep := (hline r).2.1 hopens
        rw [(parseLines_of_isOpen hTm hU hrest hstep.after hrest').alerts, hstep.alerts]
      · have hstep := (hline r).2.2 (hlines line List.mem_cons_self) hopens
        exact (ih hTm hrest hrest').trans_eq (by rw [hstep.alerts])

theorem parseLines_answered {lines : List Json} (hA : s.Answered answers)
    (h : parseLines c answers s lines = .ok s') : s'.Answered answers :=
  foldlM_invariant (fun t => t.Answered answers) (fun _ _ _ _ ht hx => parseLine_answered ht hx)
    hA h

/-- A server that carries out every statement harms no run. -/
theorem unharmed_of_answers {lines : List Json} (hok : ∀ n, answers n ≠ .failed)
    (hA : s.Answered answers) (h : parseLines c answers s lines = .ok s') : s'.Unharmed := by
  intro entry hentry _
  obtain ⟨n, hn⟩ := parseLines_answered hA h entry hentry
  rw [← hn]
  exact hok n

end run

/-! ### The lifecycle of a rule -/

/-- The history of one rule over the lines of a run: when it is open, which lines cause an
alert, and how many alerts one open period has. -/
structure Lifecycle (c : RessourceClient) (answers : ℕ → Answer) (m₀ : EventMap) (db : Database)
    (lines : List Json) (r : ResEvent) : Prop where
  open_iff : ∀ pre m, pre <+: lines → parseLines c answers (.start m₀ db) pre = .ok m →
    OpenAsLatest m₀ m.currentEvents pre r
  alert_iff : ∀ pre line m m', pre ++ [line] <+: lines →
    parseLines c answers (.start m₀ db) pre = .ok m → parseLine c answers line m = .ok m' →
    (r.verdict line = some true ∧ ¬ m.IsOpen r → m'.alertsFor r = m.alertsFor r + 1) ∧
      (¬ (r.verdict line = some true ∧ ¬ m.IsOpen r) → m'.alertsFor r = m.alertsFor r)
  once : ∀ pre mid m m', pre ++ mid <+: lines →
    parseLines c answers (.start m₀ db) pre = .ok m → parseLines c answers m mid = .ok m' →
    (∀ l ∈ mid, r.verdict l ≠ some false) → m'.alertsFor r ≤ m.alertsFor r + 1

/-- Every rule of the factory has the lifecycle that its name says, over any number of calls
of `parse`; and samples never stop it. No event may be open under id 0 at first: the
search takes that id for "not found". -/
theorem parse_lifecycle (c : RessourceClient) (answers : ℕ → Answer) (m₀ : EventMap)
    (db : Database) (calls : List Json) (hdistinct : DistinctEvents m₀) (hzero : 0 ∉ m₀)
    (hok : ∀ n, answers n ≠ .failed) (hfresh : FreshIds answers c (.start m₀ db)) :
    calls.foldlM (parse c answers) (.start m₀ db) =
        parseLines c answers (.start m₀ db) (calls.flatMap Json.elements) ∧
      ((∀ l ∈ calls.flatMap Json.elements, l.IsSample) →
        Succeeds (calls.foldlM (parse c answers) (.start m₀ db))) ∧
      ∀ r ∈ c.eventFactory, r.known →
        Lifecycle c answers m₀ db (calls.flatMap Json.elements) r := by
  have hT : Tracked answers c (.start m₀ db) := ⟨hzero, hfresh⟩
  have hA : (ParseState.start m₀ db).Answered answers := by simp [ParseState.Answered, ParseState.start]
  refine ⟨parseCalls_eq calls, ?_, fun r hr _ => ⟨?_, ?_, ?_⟩⟩
  · intro hsamples
    rw [parseCalls_eq]
    exact parseLines_of_isSample hsamples
  · intro pre m _ hrun
    exact (parseLines_openAsLatest hT hdistinct (unharmed_of_answers hok hA hrun) hrun).2 r hr
  · intro pre line m m' _ hrun hline
    have hTm := parseLines_tracked hT (unharmed_of_answers hok hA hrun) hrun
    have hU : m'.Unharmed :=
      unharmed_of_answers hok (parseLines_answered hA hrun) (parseLines_singleton.trans hline)
    obtain ⟨hfalse, hopens, hsame⟩ := (parseLine_tracked hTm hU hline).2.2 r
    refine ⟨fun hnew => (hopens ⟨hr, hnew⟩).alerts, fun hnew => ?_⟩
    by_cases hv : r.verdict line = some false
    · exact (hfalse hv).2
    · exact (hsame hv fun h => hnew h.2).alerts
  · intro pre mid m m' _ hrun hmid hlines
    have hTm := parseLines_tracked hT (unharmed_of_answers hok hA hrun) hrun
    have hU := unharmed_of_answers hok (parseLines_answered hA hrun) hmid
    exact parseLines_alerts_le hTm hU hmid hlines

/-! ### A disk -/

theorem countedIds_fresh (c : RessourceClient) {m : EventMap} (h : ∀ n : ℕ, n + 1 ∉ m) :
    FreshIds countedIds c (.start m emptyDatabase) where
  ne_zero := by
    intro n id hid
    cases hid
    omega
  once := by
    intro m n id hm hn
    cases hm
    cases hn
    rfl
  not_open := by
    intro n id _ hid
    cases hid
    exact h n
  not_row := by
    intro n id _ _
    cases hs : c.isService <;> simp [ParseState.start, emptyDatabase, Database.resEvents, EventTable.ids]

/-- An event open under id 0 is not found again: a second equal one is opened beside it. -/
theorem open_under_zero_is_opened_twice :
    DistinctEvents {(0, lowSpace)} ∧ (∀ n, countedIds n ≠ .failed) ∧
      FreshIds countedIds diskClient (.start {(0, lowSpace)} emptyDatabase) ∧
      lowSpace ∈ diskClient.eventFactory ∧ lowSpace.known ∧
      ∃ m, parseLines diskClient countedIds (.start {(0, lowSpace)} emptyDatabase)
          [diskLine 1000 10] = .ok m ∧
        Monitor.latest ([diskLine 1000 10].map lowSpace.verdict) = some true ∧
        ¬ ∃! k : ℕ, m.currentEvents[k]? = some lowSpace := by
  have hrun : (parseLines diskClient countedIds (.start {(0, lowSpace)} emptyDatabase)
      [diskLine 1000 10]).toOption.map (fun m => (m.currentEvents[0]?, m.currentEvents[1]?)) =
        some (some lowSpace, some lowSpace) := by
    decide +kernel
  have hlook : ∀ k : ℕ, ({(0, lowSpace)} : EventMap)[k]? = if k = 0 then some lowSpace else none := by
    intro k
    change ((∅ : EventMap).insert 0 lowSpace)[k]? = _
    rw [Std.ExtTreeMap.getElem?_insert]
    by_cases hk : k = 0
    · simp [hk]
    · simp [hk, Ne.symm hk]
  refine ⟨?_, fun n => by simp [countedIds], countedIds_fresh _ ?_, by decide +kernel, by decide, ?_⟩
  · intro k k' e hk hk'
    rw [hlook] at hk hk'
    split at hk <;> split at hk' <;> simp_all
  · intro n hn
    rw [mem_iff_exists_lookup] at hn
    obtain ⟨e, he⟩ := hn
    rw [hlook] at he
    cases he
  · obtain ⟨m, hm, hkeys⟩ := exists_ok_of_toOption_map hrun
    obtain ⟨h0, h1⟩ := Prod.mk.inj hkeys
    refine ⟨m, hm, by decide +kernel, ?_⟩
    rintro ⟨k, -, hk⟩
    cases (hk 0 h0).trans (hk 1 h1).symm

theorem parse_lifecycle_disk :
    Lifecycle diskClient countedIds ∅ emptyDatabase [diskLine 1000 10, diskLine 2000 30] lowSpace := by
  have h := parse_lifecycle diskClient countedIds ∅ emptyDatabase
    [.arr [diskLine 1000 10], .arr [diskLine 2000 30]] (by simp [DistinctEvents]) (by simp)
    (fun n => by simp [countedIds]) (countedIds_fresh _ (by simp))
  exact h.2.2 lowSpace (by decide +kernel) (by decide)

end WatchedBack
