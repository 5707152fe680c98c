import WatchedBack.Verification.Events.Restart
import WatchedBack.Verification.Samples.Keys

/-! # Failing statements

An insert that fails leaves an event under id 0 with no row, and a closing update that fails
leaves an open row with no event: memory and database agree along a run exactly when neither
happens. A failing update of a current value harms nothing. -/

namespace WatchedBack

open Fallible

section run

variable {c : RessourceClient} {answers : ℕ → Answer} {line : Json} {s s' : ParseState}

/-! ### Rows are never given id 0 -/

theorem exec_ids_of_insert (ts current : ℚ) (e : ResEvent) {id : ℕ}
    (hid : id ∈ ((s.exec c answers (.insertEvent c.hostId c.resId ts e current)).1.db.resEvents
      c.isService).ids) :
    id ∈ (s.db.resEvents c.isService).ids ∨ answers s.log.length = .ok id := by
  rw [exec_resEvents] at hid
  cases ha : answers s.log.length with
  | failed =>
      rw [ha] at hid
      exact Or.inl hid
  | ok k =>
      by_cases hk : k ∈ (s.db.resEvents c.isService).ids
      · left
        simpa [ha, EventTable.exec, EventTable.insert, EventRow.opened, hk] using hid
      · rw [ha, EventTable.ids,
          (EventTable.exec_insert_of_fresh c.hostId c.resId ts e current hk).2] at hid
        simp only [List.map_append, List.mem_append, List.map_cons, List.map_nil,
          List.mem_singleton] at hid
        rcases hid with hid | rfl
        · exact Or.inl hid
        · exact Or.inr rfl

theorem openEvent_ids_ne_zero (hne : ∀ n id, answers n = .ok id → id ≠ 0) (e : ResEvent)
    (h0 : 0 ∉ (s.db.resEvents c.isService).ids) (h : openEvent c answers line s e = .ok s') :
    0 ∉ (s'.db.resEvents c.isService).ids := by
  rcases openEvent_cases h with ⟨-, rfl⟩ | ⟨-, -, current, rfl⟩ | ⟨-, -, ts, current, value, rfl⟩
  · exact h0
  · rwa [exec_resEvents, EventTable.ids_exec_setCurrentValue]
  · intro hmem
    rcases exec_ids_of_insert ts current e hmem with hmem | hans
    · exact h0 hmem
    · exact hne _ 0 hans rfl

theorem closeEvent_ids {entry : ℕ × ResEvent} (h : closeEvent c answers line s entry = .ok s') :
    (s'.db.resEvents c.isService).ids = (s.db.resEvents c.isService).ids := by
  rcases closeEvent_cases h with ⟨-, rfl⟩ | ⟨-, ts, rfl⟩
  · rfl
  · simp only [exec_resEvents, EventTable.ids_exec_setEndTime]

theorem closeLoop_ids {entries : List (ℕ × ResEvent)}
    (h : entries.foldlM (closeEvent c answers line) s = .ok s') :
    (s'.db.resEvents c.isService).ids = (s.db.resEvents c.isService).ids :=
  foldlM_invariant
    (fun t => (t.db.resEvents c.isService).ids = (s.db.resEvents c.isService).ids)
    (fun _ _ _ _ ht hx => (closeEvent_ids hx).trans ht) rfl h

/-! ### A failed insert -/

/-- An event that the line satisfies is open under id 0. -/
def ParseState.Stray (line : Json) (s : ParseState) : Prop :=
  ∃ e, s.currentEvents[0]? = some e ∧ e.verdict line = some true

/-- What the opening loop has come to: nothing failed, or an event has been put under id 0. -/
theorem openEvent_unharmed_or_stray {e : ResEvent} (hU : s.Unharmed ∨ s.Stray line)
    (h : openEvent c answers line s e = .ok s') : s'.Unharmed ∨ s'.Stray line := by
  rcases openEvent_cases h with ⟨-, rfl⟩ | ⟨-, -, current, rfl⟩ | ⟨hv, -, ts, current, value, rfl⟩
  · exact hU
  · rcases hU with hU | hstray
    · left
      intro entry hentry hcrit
      rw [exec_log, List.mem_append, List.mem_singleton] at hentry
      rcases hentry with hold | rfl
      · exact hU entry hold hcrit
      · cases hcrit
    · exact Or.inr hstray
  · by_cases h0 : (s.exec c answers (.insertEvent c.hostId c.resId ts e current)).2 = 0
    · right
      refine ⟨e, ?_, hv⟩
      change (s.currentEvents.insert _ e)[0]? = some e
      rw [h0, Std.ExtTreeMap.getElem?_insert_self]
    · rcases hU with hU | ⟨f, hf, hfv⟩
      · left
        intro entry hentry hcrit
        simp only [exec_log, List.mem_append, List.mem_singleton] at hentry
        rcases hentry with hold | rfl
        · exact hU entry hold hcrit
        · intro hfail
          rw [exec_insertId] at h0
          exact h0 (by rw [show answers s.log.length = .failed from hfail]; rfl)
      · right
        refine ⟨f, ?_, hfv⟩
        change (s.currentEvents.insert _ e)[0]? = some f
        rw [Std.ExtTreeMap.getElem?_insert, if_neg (by rwa [compare_eq_iff_eq]), hf]

/-! ### A failed closing update -/

/-- The row of an open event. -/
def ParseState.HasRow (c : RessourceClient) (s : ParseState) (k : ℕ) : Prop :=
  ∃ row ∈ (s.db.resEvents c.isService).rows, c.owns row = true ∧ row.id = k

/-- Closing an event leaves the rows of the others open. -/
theorem closeEvent_hasRow {entry : ℕ × ResEvent} {k : ℕ} (hk : entry.1 ≠ k) (hrow : s.HasRow c k)
    (h : closeEvent c answers line s entry = .ok s') : s'.HasRow c k := by
  rcases closeEvent_cases h with ⟨-, rfl⟩ | ⟨-, ts, rfl⟩
  · exact hrow
  · obtain ⟨row, hmem, hown, hid⟩ := hrow
    refine ⟨row, ?_, hown, hid⟩
    simp only [exec_resEvents]
    cases answers s.log.length with
    | failed => exact hmem
    | ok id =>
        simp only [EventTable.exec, mem_rows_update]
        refine ⟨row, hmem, if_neg ?_⟩
        rw [hid]
        exact hk.symm

/-- Where a closing update fails, the row of an event that the line ends stays open. -/
theorem closeLoop_unharmed_or_row {entries : List (ℕ × ResEvent)}
    (hkeys : (entries.map Prod.fst).Nodup) (hrows : ∀ entry ∈ entries, s.HasRow c entry.1)
    (hU : s.Unharmed) (h : entries.foldlM (closeEvent c answers line) s = .ok s') :
    s'.Unharmed ∨ ∃ entry ∈ entries, entry.2.verdict line = some false ∧ s'.HasRow c entry.1 := by
  induction entries generalizing s with
  | nil =>
      cases h
      exact Or.inl hU
  | cons entry rest ih =>
      obtain ⟨m, hm, hrest⟩ := foldlM_cons_eq_ok.mp h
      rw [List.map_cons, List.nodup_cons] at hkeys
      have hne : ∀ other ∈ rest, other.1 ≠ entry.1 := fun other hother heq =>
        hkeys.1 (heq ▸ List.mem_map_of_mem hother)
      have hrows' : ∀ other ∈ rest, m.HasRow c other.1 := fun other hother =>
        closeEvent_hasRow (hne other hother).symm (hrows other (List.mem_cons_of_mem _ hother)) hm
      by_cases hUm : m.Unharmed
      · rcases ih hkeys.2 hrows' hUm hrest with h' | ⟨other, hother, hv, hrow⟩
        · exact Or.inl h'
        · exact Or.inr ⟨other, List.mem_cons_of_mem _ hother, hv, hrow⟩
      · -- this update failed: the table still has the row, and the rest keeps it
        right
        have hhead : entry.2.verdict line = some false ∧ m.HasRow c entry.1 := by
          rcases closeEvent_cases hm with ⟨-, rfl⟩ | ⟨hv, ts, rfl⟩
          · exact absurd hU hUm
          · refine ⟨hv, ?_⟩
            cases ha : answers s.log.length with
            | failed =>
                obtain ⟨row, hmem, hown⟩ := hrows entry List.mem_cons_self
                refine ⟨row, ?_, hown⟩
                simpa [ha] using hmem
            | ok id =>
                refine absurd ?_ hUm
                intro logged hlogged hcrit
                simp only [exec_log, List.mem_append, List.mem_singleton] at hlogged
                rcases hlogged with hold | rfl
                · exact hU logged hold hcrit
                · simp [ha]
        refine ⟨entry, List.mem_cons_self, hhead.1, ?_⟩
        exact foldlM_invariant (fun t => t.HasRow c entry.1)
          (fun t t' other hother ht hx => closeEvent_hasRow (hne other hother) ht hx) hhead.2 hrest

theorem nodup_keys_toList (m : EventMap) : (m.toList.map Prod.fst).Nodup := by
  rw [List.Nodup, List.pairwise_map]
  exact m.distinct_keys_toList.imp fun h heq => h (by simp [heq])

/-! ### One line -/

/-- A line that leaves memory and database in agreement has not failed. -/
theorem parseLine_unharmed (hrules : ∀ e ∈ c.eventFactory, e.Storable) (hT : Tracked answers c s)
    (hids : 0 ∉ (s.db.resEvents c.isService).ids) (hA : s.Agrees c) (hU : s.Unharmed)
    (h : parseLine c answers line s = .ok s') (hA' : s'.Agrees c) : s'.Unharmed := by
  obtain ⟨opened, closed, ho, hcl, stmt, rfl⟩ := parseLine_cases h
  have hids' : 0 ∉ (closed.db.resEvents c.isService).ids := by
    rw [closeLoop_ids hcl]
    exact foldlM_invariant (fun t => 0 ∉ (t.db.resEvents c.isService).ids)
      (fun t t' e _ ht hx => openEvent_ids_ne_zero hT.fresh.ne_zero e ht hx) hids ho
  have hopened : opened.Unharmed ∨ opened.Stray line :=
    foldlM_invariant (fun t => t.Unharmed ∨ t.Stray line)
      (fun t t' e _ ht hx => openEvent_unharmed_or_stray ht hx) (Or.inl hU) ho
  rcases hopened with hUo | ⟨e, he, hv⟩
  · have hAo : Tracked answers c opened ∧ opened.Agrees c := by
      refine foldlM_unharmed_invariant (fun t => Tracked answers c t ∧ t.Agrees c)
        (fun t t' e ht => openEvent_log e ht) ?_ ⟨hT, hA⟩ hUo ho
      rintro t t' e he ⟨hTt, hAt⟩ hUt hstep
      exact ⟨(openEvent_tracked hTt hUt hstep).1, openEvent_agrees hTt hAt hUt (hrules e he) hstep⟩
    have hrows : ∀ entry ∈ opened.currentEvents.toList, opened.HasRow c entry.1 := by
      intro entry hentry
      have hlook := Std.ExtTreeMap.mem_toList_iff_getElem?_eq_some.mp hentry
      obtain ⟨row, hrow, hown, hid, -⟩ := (hAo.2 entry.1 entry.2).mp hlook
      exact ⟨row, hrow, hown, hid⟩
    rcases closeLoop_unharmed_or_row (nodup_keys_toList _) hrows hUo hcl with hUc | hleft
    · exact hUc
    · -- an open row that the map has lost
      obtain ⟨entry, hentry, hv, row, hrow, hown, hid⟩ := hleft
      have hlook := (hA' entry.1 row.event).mpr ⟨row, hrow, hown, hid, rfl⟩
      have hkept := ((closeLoop_lookup hcl entry.1 row.event).mp hlook).2 entry.2 hentry
      exact absurd hv hkept
  · -- an event under id 0, where no row is
    have hkept : closed.currentEvents[0]? = some e := by
      rw [closeLoop_lookup hcl]
      refine ⟨he, fun f hf => ?_⟩
      have hf' := Std.ExtTreeMap.mem_toList_iff_getElem?_eq_some.mp hf
      rw [he] at hf'
      cases hf'
      simp [hv]
    obtain ⟨row, hrow, -, h0, -⟩ := (hA' 0 e).mp hkept
    exact absurd (List.mem_map.mpr ⟨row, hrow, h0⟩) hids'

/-- Along a run that has not failed so far, the invariants hold. -/
theorem parseLines_ids {lines : List Json} (hne : ∀ n id, answers n = .ok id → id ≠ 0)
    (hids : 0 ∉ (s.db.resEvents c.isService).ids)
    (h : parseLines c answers s lines = .ok s') : 0 ∉ (s'.db.resEvents c.isService).ids := by
  refine foldlM_invariant (fun t => 0 ∉ (t.db.resEvents c.isService).ids) ?_ hids h
  intro t t' line _ ht hx
  refine parseLine_invariant (fun m => 0 ∉ (m.db.resEvents c.isService).ids)
    (fun m m' e hm hstep => openEvent_ids_ne_zero hne e hm hstep) ?_ (fun m inserts hm => hm) ht hx
  intro m m' entry hm hstep
  rwa [closeEvent_ids hstep]

/-- A run whose lines all leave memory and database in agreement has not failed. -/
theorem parseLines_unharmed {lines : List Json} (hrules : ∀ e ∈ c.eventFactory, e.Storable)
    (hT : Tracked answers c s) (hids : 0 ∉ (s.db.resEvents c.isService).ids) (hA : s.Agrees c)
    (hU : s.Unharmed) (h : parseLines c answers s lines = .ok s')
    (hall : ∀ pre m, pre <+: lines → parseLines c answers s pre = .ok m → m.Agrees c) :
    s'.Unharmed := by
  induction lines using List.reverseRecOn generalizing s' with
  | nil =>
      cases h
      exact hU
  | append_singleton lines line ih =>
      obtain ⟨m, hm, hlast⟩ := parseLines_append.mp h
      rw [parseLines_singleton] at hlast
      have hUm : m.Unharmed := ih hm fun pre m' hpre =>
        hall pre m' (hpre.trans (List.prefix_append lines [line]))
      exact parseLine_unharmed hrules (parseLines_tracked hT hUm hm)
        (parseLines_ids hT.fresh.ne_zero hids hm) (parseLines_agrees hrules hT hA hUm hm) hUm hlast
        (hall _ _ List.prefix_rfl h)

end run

/-! ### Runs -/

/-- Memory and database agree after every line, and every event has at most one alert
between two lines that end it. -/
structure EventsAgree (c : RessourceClient) (answers : ℕ → Answer) (s : ParseState)
    (lines : List Json) : Prop where
  agrees : ∀ pre m, pre <+: lines → parseLines c answers s pre = .ok m → m.Agrees c
  alerts : ∀ pre mid m m', pre ++ mid <+: lines → parseLines c answers s pre = .ok m →
    parseLines c answers m mid = .ok m' → ∀ r, (∀ l ∈ mid, r.verdict l ≠ some false) →
      m'.alertsFor r ≤ m.alertsFor r + 1

/-- Memory and database agree along a run of a client loaded by `init` exactly when no insert
of an event and no closing update fails. -/
theorem eventsAgree_iff_unharmed (c : RessourceClient) (db : Database) (answers : ℕ → Answer)
    (lines : List Json) (s' : ParseState) (hnew : c.IsNew)
    (hids : 0 ∉ (db.resEvents c.isService).ids)
    (hfresh : FreshIds answers (c.init db) (.start (c.init db).currentEvents db))
    (h : parseLines (c.init db) answers (.start (c.init db).currentEvents db) lines = .ok s') :
    EventsAgree (c.init db) answers (.start (c.init db).currentEvents db) lines ↔
      s'.Unharmed := by
  have hT := tracked_init hnew hids hfresh
  have hrules : ∀ e ∈ (c.init db).eventFactory, e.Storable := c.init_storable hnew
  have hA : (ParseState.start (c.init db).currentEvents db).Agrees (c.init db) :=
    c.init_agrees hnew
  constructor
  · intro hall
    exact parseLines_unharmed hrules hT hids hA (by simp [ParseState.Unharmed, ParseState.start]) h
      hall.agrees
  · intro hU
    have hbefore : ∀ pre m, pre <+: lines →
        parseLines (c.init db) answers (.start (c.init db).currentEvents db) pre = .ok m →
        m.Unharmed := by
      rintro pre m ⟨post, rfl⟩ hm
      obtain ⟨m', hm', hpost⟩ := parseLines_append.mp h
      rw [hm] at hm'
      cases hm'
      exact hU.of_prefix (parseLines_log hpost)
    refine ⟨?_, ?_⟩
    · intro pre m hpre hm
      exact parseLines_agrees hrules hT hA (hbefore pre m hpre hm) hm
    · intro pre mid m m' hpre hm hmid r hlines
      have hm' := hbefore _ m' hpre (parseLines_append.mpr ⟨m, hm, hmid⟩)
      have hmU := hbefore pre m ((List.prefix_append pre mid).trans hpre) hm
      exact parseLines_alerts_le (parseLines_tracked hT hmU hm) hm' hmid hlines

/-- Every statement is carried out. -/
theorem eventsAgree_disk :
    EventsAgree (newDisk.init diskDatabase) countedIds
      (.start (newDisk.init diskDatabase).currentEvents diskDatabase)
      [diskLine 1000 10, diskLine 2000 30] := by
  have hrun : Succeeds (parseLines (newDisk.init diskDatabase) countedIds
      (.start (newDisk.init diskDatabase).currentEvents diskDatabase)
      [diskLine 1000 10, diskLine 2000 30]) := by
    refine parseLines_of_isSample ?_
    simp [diskLine_isSample]
  obtain ⟨s', hs⟩ := hrun
  refine (eventsAgree_iff_unharmed newDisk diskDatabase countedIds _ s' newDisk_isNew (by decide)
    newDisk_counted hs).mpr ?_
  exact unharmed_of_answers (fun n => by simp [countedIds])
    (by simp [ParseState.Answered, ParseState.start]) hs

/-- The insert of the first event fails: it stays in memory, under id 0 and without a row. -/
theorem failed_insert_disagrees :
    FreshIds (fun _ => .failed) (newDisk.init diskDatabase)
        (.start (newDisk.init diskDatabase).currentEvents diskDatabase) ∧
      ¬ EventsAgree (newDisk.init diskDatabase) (fun _ => .failed)
        (.start (newDisk.init diskDatabase).currentEvents diskDatabase) [diskLine 1000 10] := by
  refine ⟨newDisk_fresh (fun n id h => by cases h) (fun m n id hm => by cases hm), ?_⟩
  intro hall
  have hrun : (parseLines (newDisk.init diskDatabase) (fun _ => .failed)
      (.start (newDisk.init diskDatabase).currentEvents diskDatabase)
      [diskLine 1000 10]).toOption.map
        (fun m => (m.currentEvents[0]?, (m.db.resEvents false).rows)) = some (some lowSpace, []) := by
    decide +kernel
  obtain ⟨m, hm, hstate⟩ := exists_ok_of_toOption_map hrun
  obtain ⟨h0, hrows⟩ := Prod.mk.inj hstate
  obtain ⟨row, hrow, -⟩ := (hall.agrees _ m List.prefix_rfl hm 0 lowSpace).mp h0
  rw [show (m.db.resEvents (newDisk.init diskDatabase).isService).rows = [] from hrows] at hrow
  cases hrow

end WatchedBack
