import Mathlib

/-! Grouping a list by a key: one group for each key that occurs. -/

namespace Grouping

universe u v w

variable {α : Type u} {κ : Type v} {β : Type w} [DecidableEq κ] (key : α → κ)

/-- The elements with the given key, in their order. -/
def group (k : κ) (xs : List α) : List α := xs.filter fun x => key x = k

/-- The keys that occur, each once. -/
def keys (xs : List α) : List κ := (xs.map key).dedup

/-- `GROUP BY`: one result for each key that occurs. -/
def groupBy (f : κ → List α → β) (xs : List α) : List β :=
  (keys key xs).map fun k => f k (group key k xs)

variable {key}

@[simp] theorem mem_group {k : κ} {xs : List α} {x : α} :
    x ∈ group key k xs ↔ x ∈ xs ∧ key x = k := by
  simp [group]

@[simp] theorem mem_keys {k : κ} {xs : List α} : k ∈ keys key xs ↔ ∃ x ∈ xs, key x = k := by
  simp [keys]

theorem mem_groupBy {f : κ → List α → β} {xs : List α} {y : β} :
    y ∈ groupBy key f xs ↔ ∃ k, (∃ x ∈ xs, key x = k) ∧ f k (group key k xs) = y := by
  simp [groupBy]

/-- Where each result has the key of its group, no two results have the same key. -/
theorem nodup_map_groupBy {γ : Type*} {g : β → γ} {f : κ → List α → β} (xs : List α)
    (hg : ∀ k k', g (f k (group key k xs)) = g (f k' (group key k' xs)) → k = k') :
    ((groupBy key f xs).map g).Nodup := by
  rw [groupBy, List.map_map]
  exact (List.nodup_dedup _).map fun k k' h => hg k k' h

/-- A group of the elements that pass a test of their key alone is all of the group, or nothing. -/
theorem group_filter_of_key {p : α → Bool} {k : κ} {xs : List α}
    (h : ∀ x ∈ xs, key x = k → p x = true) : group key k (xs.filter p) = group key k xs := by
  rw [group, List.filter_filter]
  refine List.filter_congr fun x hx => ?_
  by_cases hk : key x = k
  · simp [hk, h x hx hk]
  · simp [hk]

/-- The groups of all keys together hold each element once. -/
theorem flatten_groups_perm {ks : List κ} (hks : ks.Nodup) {xs : List α}
    (h : ∀ x ∈ xs, key x ∈ ks) : (ks.map fun k => group key k xs).flatten.Perm xs := by
  induction ks generalizing xs with
  | nil =>
      cases xs with
      | nil => simp
      | cons x xs => exact absurd (h x List.mem_cons_self) List.not_mem_nil
  | cons k ks ih =>
      obtain ⟨hk, hks⟩ := List.nodup_cons.mp hks
      -- the elements of the other groups
      have hrest : (ks.map fun j => group key j xs).flatten.Perm (xs.filter fun x => ¬ key x = k) := by
        have hsame : (ks.map fun j => group key j xs) =
            ks.map fun j => group key j (xs.filter fun x => ¬ key x = k) := by
          refine List.map_congr_left fun j hj => (group_filter_of_key fun x _ hx => ?_).symm
          have hne : key x ≠ k := by
            rw [hx]
            rintro rfl
            exact hk hj
          simpa using hne
        rw [hsame]
        refine ih hks fun x hx => ?_
        obtain ⟨hmem, hne⟩ := List.mem_filter.mp hx
        exact (List.mem_cons.mp (h x hmem)).resolve_left (by simpa using hne)
      rw [List.map_cons, List.flatten_cons]
      refine (hrest.append_left _).trans ?_
      have hsplit := List.filter_append_perm (fun x => decide (key x = k)) xs
      simpa [group] using hsplit

/-- A group by a coarser key is made of the groups by the finer one. -/
theorem flatten_groups_perm_coarse {γ : Type*} [DecidableEq γ] {coarse : α → γ} (up : κ → γ)
    (hup : ∀ x, coarse x = up (key x)) {k : γ} {ks : List κ} (hks : ks.Nodup)
    (hfine : ∀ j ∈ ks, up j = k) {xs : List α}
    (hcover : ∀ x ∈ xs, coarse x = k → key x ∈ ks) :
    (ks.map fun j => group key j xs).flatten.Perm (group coarse k xs) := by
  have hsame : (ks.map fun j => group key j xs) =
      ks.map fun j => group key j (group coarse k xs) := by
    refine List.map_congr_left fun j hj => (group_filter_of_key fun x _ hx => ?_).symm
    rw [hup, hx, hfine j hj]
    exact decide_eq_true rfl
  rw [hsame]
  refine flatten_groups_perm hks fun x hx => ?_
  obtain ⟨hmem, hk⟩ := mem_group.mp hx
  exact hcover x hmem hk

/-- Elements that are put together from different cells are different, where what tells them apart
tells their cells apart. -/
theorem nodup_map_flatMap {γ δ : Type*} {ident : β → γ} {cell : α → δ} (cellOf : γ → δ)
    {parts : α → List β} {xs : List α} (hxs : (xs.map cell).Nodup)
    (hparts : ∀ x ∈ xs, ((parts x).map ident).Nodup)
    (hcell : ∀ x ∈ xs, ∀ y ∈ parts x, cellOf (ident y) = cell x) :
    ((xs.flatMap parts).map ident).Nodup := by
  rw [List.map_flatMap, List.nodup_flatMap]
  refine ⟨hparts, (List.pairwise_map.mp hxs).imp_of_mem fun {x x'} hx hx' hne => ?_⟩
  intro k hk hk'
  obtain ⟨y, hy, rfl⟩ := List.mem_map.mp hk
  obtain ⟨y', hy', heq⟩ := List.mem_map.mp hk'
  apply hne
  rw [← hcell x hx y hy, ← hcell x' hx' y' hy', heq]

end Grouping
