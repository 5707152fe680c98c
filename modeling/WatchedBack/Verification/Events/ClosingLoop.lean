import WatchedBack.Verification.Events.Failures
import WatchedBack.Verification.Events.Faults

/-! # The closing loop and its iterator

The loop erases an event from the map that it goes over, and then advances the iterator of the
event that it erased. It is sound exactly on the lines that end no open event. -/

namespace WatchedBack

open Fallible Iterators

section loop

variable {c : RessourceClient} {answers : ℕ → Answer} {line : Json} {s s' t : ParseState}

/-! ### One event -/

theorem sorted_toList (m : EventMap) : m.toList.Pairwise fun a b => a.1 < b.1 :=
  m.ordered_keys_toList.imp fun h => Nat.compare_eq_lt.mp h

theorem key_mem_toList_iff {m : EventMap} {id : ℕ} : id ∈ m.toList.map Prod.fst ↔ id ∈ m := by
  rw [Std.ExtTreeMap.map_fst_toList_eq_keys, Std.ExtTreeMap.mem_keys]

/-- An event is left alone, or it is the one that is erased. -/
theorem closeEvent_local :
    Local (fun s => s.currentEvents.toList) (closeEvent c answers line) := by
  intro s entry s' h
  rcases closeEvent_cases h with ⟨-, rfl⟩ | ⟨-, ts, rfl⟩
  · exact Or.inl rfl
  · right
    rw [key_mem_toList_iff]
    simp

/-- The condition of an open event can be evaluated on the line, and does not end the event. -/
def ResEvent.Continues (e : ResEvent) (line : Json) : Prop :=
  e.Readable line ∧ e.verdict line ≠ some false

/-- The iterator survives an event exactly if the event goes on, and then nothing changes. -/
theorem visit_closeEvent_iff {entry : ℕ × ResEvent} (hmem : entry ∈ s.currentEvents.toList) :
    visit (fun s => s.currentEvents.toList) (closeEvent c answers line) s entry.1 = .ok s' ↔
      entry.2.Continues line ∧ s' = s := by
  rw [visit_eq_ok closeEvent_local (sorted_toList _) hmem]
  constructor
  · rintro ⟨h, hkept⟩
    have hreadable := (closeEvent_succeeds_iff.mp ⟨s', h⟩).1
    rcases closeEvent_cases h with ⟨hverdict, rfl⟩ | ⟨-, ts, rfl⟩
    · exact ⟨⟨hreadable, hverdict⟩, rfl⟩
    · have hkey : entry.1 ∈ s.currentEvents.toList.map Prod.fst := List.mem_map_of_mem hmem
      have herased : entry.1 ∉ (s.currentEvents.erase entry.1).toList.map Prod.fst := by
        rw [key_mem_toList_iff]
        simp
      exact absurd (hkept.symm ▸ hkey) herased
  · rintro ⟨⟨hreadable, hverdict⟩, rfl⟩
    have hruns : Succeeds (closeEvent c answers line s' entry) :=
      closeEvent_succeeds_iff.mpr ⟨hreadable, fun h => absurd h hverdict⟩
    obtain ⟨t, ht⟩ := hruns
    rcases closeEvent_cases ht with ⟨-, rfl⟩ | ⟨hends, -⟩
    · exact ⟨ht, rfl⟩
    · exact absurd hends hverdict

/-! ### The whole loop -/

/-- The loop comes to the end of the map exactly if every open event goes on. It has then
examined each of them, and changed nothing. -/
theorem closingLoop_eq_ok {ids : List ℕ} :
    closingLoop c answers line s = .ok (ids, t) ↔
      ids = s.currentEvents.toList.map Prod.fst ∧ t = s ∧
        ∀ entry ∈ s.currentEvents.toList, entry.2.Continues line := by
  rw [closingLoop, loop_start_eq_ok closeEvent_local (sorted_toList _)]
  refine and_congr_right fun _ => ?_
  constructor
  · intro h
    apply foldlM_forall (fun m => m = s) (fun entry => entry.2.Continues line) _ rfl h
    rintro m m' entry hentry rfl hvisit
    exact ((visit_closeEvent_iff hentry).mp hvisit).symm
  · rintro ⟨rfl, hall⟩
    apply foldlM_eq_ok_self
    intro entry hentry
    exact (visit_closeEvent_iff hentry).mpr ⟨hall entry hentry, rfl⟩

/-- Where the iterator survives, the loop does what `parseLine` takes it to do. -/
theorem closingLoop_eq_foldlM {ids : List ℕ} (h : closingLoop c answers line s = .ok (ids, t)) :
    s.currentEvents.toList.foldlM (closeEvent c answers line) s = .ok t := by
  obtain ⟨-, rfl, hall⟩ := closingLoop_eq_ok.mp h
  apply foldlM_eq_ok_self
  intro entry hentry
  have hvisit : visit (fun s => s.currentEvents.toList) (closeEvent c answers line) t entry.1 =
      .ok t := (visit_closeEvent_iff hentry).mpr ⟨hall entry hentry, rfl⟩
  exact ((visit_eq_ok closeEvent_local (sorted_toList _) hentry).mp hvisit).1

/-- The loop ends at the end of the map, having examined once every event that was open when it
started. The events whose condition ended are closed, in memory and by an update each, and no
other is touched. -/
structure ClosesSoundly (c : RessourceClient) (answers : ℕ → Answer) (line : Json)
    (s t : ParseState) (ids : List ℕ) : Prop where
  returns : closingLoop c answers line s = .ok (ids, t)
  examined : ∀ id, ids.count id = if id ∈ s.currentEvents then 1 else 0
  left : ∀ (id : ℕ) (e : ResEvent), t.currentEvents[id]? = some e ↔
    s.currentEvents[id]? = some e ∧ e.verdict line ≠ some false
  updates : ∃ ts, t.log.map Prod.fst = s.log.map Prod.fst ++
    (s.currentEvents.toList.filter fun entry => entry.2.verdict line = some false).map
      fun entry => .setEndTime entry.1 ts

end loop

/-- The closing loop is sound on a line exactly if the line ends no open event and lets every open
event be compared. -/
theorem closing_sound_iff (c : RessourceClient) (answers : ℕ → Answer) (line : Json)
    (s : ParseState) :
    (∃ t ids, ClosesSoundly c answers line s t ids) ↔
      ∀ (id : ℕ) (e : ResEvent), s.currentEvents[id]? = some e → e.Continues line := by
  have hentries : (∀ entry ∈ s.currentEvents.toList, entry.2.Continues line) ↔
      ∀ (id : ℕ) (e : ResEvent), s.currentEvents[id]? = some e → e.Continues line := by
    simp [Std.ExtTreeMap.mem_toList_iff_getElem?_eq_some]
  rw [← hentries]
  constructor
  · rintro ⟨t, ids, h⟩
    exact (closingLoop_eq_ok.mp h.returns).2.2
  · intro hall
    refine ⟨s, _, closingLoop_eq_ok.mpr ⟨rfl, rfl, hall⟩, ?_, ?_, 0, ?_⟩
    · intro id
      rw [(nodup_keys_toList _).count]
      simp only [key_mem_toList_iff]
    · intro id e
      rw [and_iff_left_of_imp]
      intro he
      exact (hentries.mp hall id e he).2
    · have hnone : s.currentEvents.toList.filter
          (fun entry => entry.2.verdict line = some false) = [] := by
        rw [List.filter_eq_nil_iff]
        intro entry hentry
        simpa using (hall entry hentry).2
      rw [hnone, List.map_nil, List.append_nil]

/-- The free space of the disk is back: the loop erases the only open event, and advances the
iterator that points to it. -/
theorem closing_advances_erased :
    (closingLoop diskClient countedIds (diskLine 0 50)
        (ParseState.start ((∅ : EventMap).insert 7 lowSpace) emptyDatabase)).map Prod.fst =
      .error (.dangling 7) ∧
    ¬ ∃ t ids, ClosesSoundly diskClient countedIds (diskLine 0 50)
      (ParseState.start ((∅ : EventMap).insert 7 lowSpace) emptyDatabase) t ids := by
  have hrun : (closingLoop diskClient countedIds (diskLine 0 50)
      (ParseState.start ((∅ : EventMap).insert 7 lowSpace) emptyDatabase)).map Prod.fst =
        .error (.dangling 7) := by
    decide +kernel
  refine ⟨hrun, ?_⟩
  rintro ⟨t, ids, h⟩
  rw [h.returns] at hrun
  cases hrun

end WatchedBack
