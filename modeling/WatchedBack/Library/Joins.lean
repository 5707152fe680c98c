import Mathlib

/-! Joins of tables by their keys, and selections of the rows of one table. -/

namespace Joins

universe u v

variable {α : Type u} {β : Type v} {xs : List α} {x : α} {f : α → List β}

/-- A join in which one row takes part. -/
theorem flatMap_eq_of_unique (hnodup : xs.Nodup) (hx : x ∈ xs) (h : ∀ y ∈ xs, y ≠ x → f y = []) :
    xs.flatMap f = f x := by
  induction xs with
  | nil => cases hx
  | cons y xs ih =>
      obtain ⟨hnot, hrest⟩ := List.nodup_cons.mp hnodup
      rw [List.flatMap_cons]
      rcases List.mem_cons.mp hx with rfl | hin
      · have hnil : xs.flatMap f = [] := by
          rw [List.flatMap_eq_nil_iff]
          intro z hz
          apply h z (List.mem_cons_of_mem x hz)
          rintro rfl
          exact hnot hz
        rw [hnil, List.append_nil]
      · have hne : y ≠ x := by
          rintro rfl
          exact hnot hin
        rw [h y List.mem_cons_self hne, List.nil_append]
        exact ih hrest hin fun z hz => h z (List.mem_cons_of_mem y hz)

/-- A join with the row of a key, if there is one. -/
theorem filter_key {κ : Type*} [DecidableEq κ] {key : α → κ} (hnodup : (xs.map key).Nodup) (k : κ) :
    (xs.filter fun x => key x = k) = [] ∧ k ∉ xs.map key ∨
      ∃ x, (xs.filter fun x => key x = k) = [x] ∧ k ∈ xs.map key := by
  induction xs with
  | nil => exact Or.inl ⟨rfl, List.not_mem_nil⟩
  | cons y xs ih =>
      rw [List.map_cons, List.nodup_cons] at hnodup
      by_cases heq : key y = k
      · apply Or.inr
        refine ⟨y, ?_, by simp [heq]⟩
        rw [List.filter_cons_of_pos (by simp [heq])]
        rcases ih hnodup.2 with ⟨hnil, -⟩ | ⟨x, -, hin⟩
        · rw [hnil]
        · rw [← heq] at hin
          exact absurd hin hnodup.1
      · rw [List.filter_cons_of_neg (by simp [heq]), List.map_cons, List.mem_cons]
        have hne : ¬ k = key y := fun h => heq h.symm
        simpa [hne] using ih hnodup.2

/-- A join whose rows are single or none is a selection. -/
theorem flatMap_ite (xs : List α) (p : α → Bool) (g : α → β) :
    (xs.flatMap fun x => if p x = true then [g x] else []) = (xs.filter p).map g := by
  induction xs with
  | nil => rfl
  | cons x xs ih =>
      rw [List.flatMap_cons, ih]
      by_cases hp : p x = true
      · rw [if_pos hp, List.filter_cons_of_pos hp]
        rfl
      · rw [if_neg hp, List.filter_cons_of_neg hp]
        rfl

section selections

variable [DecidableEq β] {p q : α → Bool} {g : α → β}

theorem count_map_filter (b : β) :
    ((xs.filter p).map g).count b = xs.countP fun x => g x = b ∧ p x = true := by
  rw [List.count_eq_countP, List.countP_map, List.countP_filter]
  apply List.countP_congr
  intro x _
  simp

/-- Rows that are counted are selected by the other, too, or not. -/
theorem countP_split (xs : List α) (p q : α → Bool) (g : α → β) (b : β) :
    (xs.countP fun x => g x = b ∧ p x = true) =
      (xs.countP fun x => g x = b ∧ p x = true ∧ q x = true) +
        xs.countP fun x => g x = b ∧ p x = true ∧ q x = false := by
  rw [List.countP_eq_countP_filter_add _ _ q, List.countP_filter, List.countP_filter]
  congr 1
  · apply List.countP_congr
    intro x _
    simp [and_assoc]
  · apply List.countP_congr
    intro x _
    simp [and_assoc]

/-- Two selections of the rows of a table give the same values equally often, exactly if the rows of
one only do as those of the other only. -/
theorem perm_map_filter_iff :
    ((xs.filter p).map g).Perm ((xs.filter q).map g) ↔ ∀ b,
      (xs.countP fun x => g x = b ∧ p x = true ∧ q x = false) =
        xs.countP fun x => g x = b ∧ q x = true ∧ p x = false := by
  rw [List.perm_iff_count]
  apply forall_congr'
  intro b
  rw [count_map_filter, count_map_filter, countP_split xs p q g b, countP_split xs q p g b]
  have hboth : (xs.countP fun x => g x = b ∧ q x = true ∧ p x = true) =
      xs.countP fun x => g x = b ∧ p x = true ∧ q x = true := by
    apply List.countP_congr
    intro x _
    simp [and_comm]
  omega

end selections

end Joins
