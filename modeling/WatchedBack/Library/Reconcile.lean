import Mathlib

/-! Keyed reconciliation: a list of items is brought in line with a list of descriptions, one
description after the other. An item whose key is described is refreshed, a description whose key
no item has becomes an item. -/

namespace Reconcile

universe u v w

variable {α : Type u} {β : Type v} {κ : Type w} [DecidableEq κ]

section defs

variable (keyOf : α → κ) (newKey : β → κ) (refresh : β → α → α) (create : β → α)

def upsert (items : List α) (new : β) : List α :=
  if items.any fun a => keyOf a = newKey new then
    items.map fun a => if keyOf a = newKey new then refresh new a else a
  else items ++ [create new]

def upsertAll (items : List α) (news : List β) : List α :=
  news.foldl (upsert keyOf newKey refresh create) items

/-- The item after all descriptions: refreshed by the one of its key. -/
def refreshed (news : List β) (a : α) : α :=
  match news.find? fun n => newKey n = keyOf a with
  | some n => refresh n a
  | none => a

/-- The descriptions that become items. -/
def added (items : List α) (news : List β) : List β :=
  news.filter fun n => newKey n ∉ items.map keyOf

end defs

section rules

variable {keyOf : α → κ} {newKey : β → κ} {refresh : β → α → α} {create : β → α}
  {items : List α} {news : List β} {new : β} {a : α}

theorem any_key_iff : (items.any fun a => keyOf a = newKey new) = true ↔
    newKey new ∈ items.map keyOf := by
  simp [List.any_eq_true]

theorem refreshed_cons_of_ne (h : newKey new ≠ keyOf a) :
    refreshed keyOf newKey refresh (new :: news) a = refreshed keyOf newKey refresh news a := by
  simp [refreshed, h]

theorem refreshed_cons_of_eq (h : newKey new = keyOf a) :
    refreshed keyOf newKey refresh (new :: news) a = refresh new a := by
  simp [refreshed, h]

theorem refreshed_of_notMem (h : keyOf a ∉ news.map newKey) :
    refreshed keyOf newKey refresh news a = a := by
  induction news with
  | nil => rfl
  | cons new news ih =>
      rw [List.map_cons, List.mem_cons, not_or] at h
      rw [refreshed_cons_of_ne (Ne.symm h.1)]
      exact ih h.2

theorem refreshed_of_mem (hnodup : (news.map newKey).Nodup) (hmem : new ∈ news)
    (hkey : newKey new = keyOf a) :
    refreshed keyOf newKey refresh news a = refresh new a := by
  induction news with
  | nil => cases hmem
  | cons n news ih =>
      obtain ⟨hn, hnodup⟩ := List.nodup_cons.mp hnodup
      by_cases h : newKey n = keyOf a
      · rcases List.mem_cons.mp hmem with rfl | hmem
        · exact refreshed_cons_of_eq h
        · exact absurd (List.mem_map.mpr ⟨new, hmem, hkey.trans h.symm⟩) hn
      · rw [refreshed_cons_of_ne h]
        rcases List.mem_cons.mp hmem with rfl | hmem
        · exact absurd hkey h
        · exact ih hnodup hmem

theorem refreshed_cases (keyOf : α → κ) (newKey : β → κ) (refresh : β → α → α) (news : List β)
    (a : α) :
    (∃ n ∈ news, newKey n = keyOf a ∧ refreshed keyOf newKey refresh news a = refresh n a) ∨
      keyOf a ∉ news.map newKey ∧ refreshed keyOf newKey refresh news a = a := by
  rw [refreshed]
  cases hfind : news.find? fun n => newKey n = keyOf a with
  | some n =>
      have hkey : newKey n = keyOf a := by simpa using List.find?_some hfind
      exact Or.inl ⟨n, List.mem_of_find?_eq_some hfind, hkey, rfl⟩
  | none =>
      refine Or.inr ⟨fun hmem => ?_, rfl⟩
      obtain ⟨n, hn, hkey⟩ := List.mem_map.mp hmem
      exact absurd hkey (by simpa using List.find?_eq_none.mp hfind n hn)

/-- Keys that are not refreshed away: what `refresh` keeps and `create` gives. -/
structure KeepsKeys (keyOf : α → κ) (newKey : β → κ) (refresh : β → α → α) (create : β → α) :
    Prop where
  refresh : ∀ n a, keyOf (refresh n a) = keyOf a
  create : ∀ n, keyOf (create n) = newKey n

theorem KeepsKeys.refreshed (h : KeepsKeys keyOf newKey refresh create) (news : List β) (a : α) :
    keyOf (refreshed keyOf newKey refresh news a) = keyOf a := by
  rw [Reconcile.refreshed]
  split
  · exact h.refresh _ a
  · rfl

/-- What all descriptions together make of the items. -/
theorem upsertAll_eq (h : KeepsKeys keyOf newKey refresh create)
    (hnodup : (news.map newKey).Nodup) :
    upsertAll keyOf newKey refresh create items news =
      items.map (refreshed keyOf newKey refresh news) ++
        (added keyOf newKey items news).map create := by
  induction news generalizing items with
  | nil =>
      have hid : refreshed keyOf newKey refresh [] = id := rfl
      simp [upsertAll, added, hid]
  | cons new news ih =>
      obtain ⟨hnew, hnodup⟩ := List.nodup_cons.mp hnodup
      have hrun : upsertAll keyOf newKey refresh create items (new :: news) =
          upsertAll keyOf newKey refresh create
            (upsert keyOf newKey refresh create items new) news := rfl
      rw [hrun, ih hnodup]
      by_cases hmem : newKey new ∈ items.map keyOf
      · have hstep : upsert keyOf newKey refresh create items new =
            items.map fun a => if keyOf a = newKey new then refresh new a else a := by
          rw [upsert, if_pos (any_key_iff.mpr hmem)]
        have hkeys : (items.map fun a => if keyOf a = newKey new then refresh new a else a).map
            keyOf = items.map keyOf := by
          rw [List.map_map]
          apply List.map_congr_left
          intro a _
          simp only [Function.comp_apply]
          split
          · exact h.refresh new a
          · rfl
        have hadded : added keyOf newKey items (new :: news) = added keyOf newKey items news := by
          rw [added, List.filter_cons_of_neg (by simpa using hmem), added]
        rw [hstep, hadded, added, hkeys, ← added, List.map_map]
        congr 1
        apply List.map_congr_left
        intro a _
        simp only [Function.comp_apply]
        by_cases ha : keyOf a = newKey new
        · rw [if_pos ha, refreshed_cons_of_eq ha.symm]
          -- no later description has the key
          exact refreshed_of_notMem (by rwa [h.refresh, ha])
        · rw [if_neg ha, refreshed_cons_of_ne (Ne.symm ha)]
      · have hstep : upsert keyOf newKey refresh create items new = items ++ [create new] := by
          rw [upsert, if_neg (fun hany => hmem (any_key_iff.mp hany))]
        have hcreate : refreshed keyOf newKey refresh news (create new) = create new :=
          refreshed_of_notMem (by rwa [h.create])
        have hitems : items.map (refreshed keyOf newKey refresh (new :: news)) =
            items.map (refreshed keyOf newKey refresh news) := by
          apply List.map_congr_left
          intro a ha
          exact refreshed_cons_of_ne fun heq => hmem (List.mem_map.mpr ⟨a, ha, heq.symm⟩)
        have hadded : added keyOf newKey items (new :: news) =
            new :: added keyOf newKey (items ++ [create new]) news := by
          rw [added, List.filter_cons_of_pos (by simpa using hmem), added]
          congr 1
          apply List.filter_congr
          intro n hn
          have hne : newKey n ≠ newKey new := fun heq => hnew (List.mem_map.mpr ⟨n, hn, heq⟩)
          simp [h.create, hne]
        rw [hstep, hitems, hadded, List.map_append, List.map_cons, List.map_nil, hcreate]
        simp

/-- Described keys are all there, each other one is as it was. -/
theorem upsertAll_keys (h : KeepsKeys keyOf newKey refresh create)
    (hnodup : (news.map newKey).Nodup) :
    (upsertAll keyOf newKey refresh create items news).map keyOf =
      items.map keyOf ++ (added keyOf newKey items news).map newKey := by
  rw [upsertAll_eq h hnodup, List.map_append, List.map_map, List.map_map]
  congr 1
  · exact List.map_congr_left fun a _ => h.refreshed news a
  · exact List.map_congr_left fun n _ => h.create n

theorem mem_added : new ∈ added keyOf newKey items news ↔
    new ∈ news ∧ newKey new ∉ items.map keyOf := by
  simp [added]

/-- Distinct keys stay distinct. -/
theorem upsertAll_keys_nodup (h : KeepsKeys keyOf newKey refresh create)
    (hitems : (items.map keyOf).Nodup) (hnodup : (news.map newKey).Nodup) :
    ((upsertAll keyOf newKey refresh create items news).map keyOf).Nodup := by
  rw [upsertAll_keys h hnodup]
  apply List.Nodup.append hitems
  · exact (List.filter_sublist.map newKey).nodup hnodup
  · intro key hmem hadded
    obtain ⟨n, hn, rfl⟩ := List.mem_map.mp hadded
    exact (mem_added.mp hn).2 hmem

end rules

end Reconcile
