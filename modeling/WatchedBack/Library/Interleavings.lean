import WatchedBack.Library.Reports

/-! Lists that run one after the other or in turn, each in its own order. -/

namespace Interleavings

universe u

variable {α : Type u} {xs ys : List α} {xss yss : List (List α)} {x y : α}

/-- The next element is the first one of some list. -/
inductive Interleaving : List (List α) → List α → Prop
  | done {xss : List (List α)} (h : ∀ xs ∈ xss, xs = []) : Interleaving xss []
  | step {xss rest : List (List α)} {x : α} {xs ys : List α} (h : xss.Perm ((x :: xs) :: rest))
      (hrest : Interleaving (xs :: rest) ys) : Interleaving xss (x :: ys)

namespace Interleaving

/-- The lists come in no order. -/
theorem of_perm (h : Interleaving xss ys) (hperm : yss.Perm xss) : Interleaving yss ys := by
  cases h with
  | done h => exact .done fun xs hxs => h xs (hperm.mem_iff.mp hxs)
  | step h hrest => exact .step (hperm.trans h) hrest

theorem perm_flatten (h : Interleaving xss ys) : ys.Perm xss.flatten := by
  induction h with
  | done h => rw [List.flatten_eq_nil_iff.mpr h]
  | step h _ ih => exact (ih.cons _).trans h.symm.flatten

theorem mem_iff (h : Interleaving xss ys) : y ∈ ys ↔ ∃ xs ∈ xss, y ∈ xs := by
  rw [h.perm_flatten.mem_iff, List.mem_flatten]

/-- A list that runs to its end first. -/
theorem append (h : Interleaving yss ys) (xs : List α) : Interleaving (xs :: yss) (xs ++ ys) := by
  induction xs with
  | nil =>
      induction h with
      | done h =>
          refine .done fun xs hxs => ?_
          rcases List.mem_cons.mp hxs with rfl | hxs
          · rfl
          · exact h xs hxs
      | step h _ ih =>
          exact .step ((List.Perm.cons _ h).trans (List.Perm.swap _ _ _))
            (ih.of_perm (List.Perm.swap _ _ _))
  | cons x xs ih => exact .step (.refl _) ih

theorem single (xs : List α) : Interleaving [xs] xs := by
  have h := append (.done fun _ h => absurd h List.not_mem_nil : Interleaving ([] : List (List α)) []) xs
  rwa [List.append_nil] at h

/-- Any of the lists may be the last to run. -/
theorem exists_last (h : xs ∈ xss) : ∃ ys, Interleaving xss (ys ++ xs) := by
  have hlast : ∀ others : List (List α), ∃ ys, Interleaving (xs :: others) (ys ++ xs) := by
    intro others
    induction others with
    | nil => exact ⟨[], single xs⟩
    | cons zs others ih =>
        obtain ⟨ys, hys⟩ := ih
        refine ⟨zs ++ ys, ?_⟩
        rw [List.append_assoc]
        exact (hys.append zs).of_perm (List.Perm.swap _ _ _)
  obtain ⟨before, after, rfl⟩ := List.append_of_mem h
  obtain ⟨ys, hys⟩ := hlast (before ++ after)
  exact ⟨ys, hys.of_perm List.perm_middle⟩

/-- The last report of a key is the last one of some list. -/
theorem exists_last_report {L : Reports.Likeness α} (h : Interleaving xss ys)
    (hlast : L.last ys x = some y) : ∃ xs ∈ xss, L.last xs x = some y := by
  induction h with
  | done _ => cases hlast
  | @step xss rest z xs ys h hrest ih =>
      rw [← List.singleton_append, Reports.Likeness.last_append] at hlast
      cases hys : L.last ys x with
      | some w =>
          rw [hys] at hlast
          cases hlast
          obtain ⟨zs, hzs, hlast⟩ := ih hys
          rcases List.mem_cons.mp hzs with rfl | hzs
          · refine ⟨z :: zs, h.mem_iff.mpr List.mem_cons_self, ?_⟩
            rw [← List.singleton_append, Reports.Likeness.last_append, hlast]
            rfl
          · exact ⟨zs, h.mem_iff.mpr (List.mem_cons_of_mem _ hzs), hlast⟩
      | none =>
          -- the list of the first element does not report the key again
          have hnone : L.last xs x = none := by
            rw [Reports.Likeness.last_eq_none_iff, Reports.Likeness.seenIn, List.any_eq_false] at hys ⊢
            intro w hw
            exact hys w (hrest.mem_iff.mpr ⟨xs, List.mem_cons_self, hw⟩)
          rw [hys] at hlast
          refine ⟨z :: xs, h.mem_iff.mpr List.mem_cons_self, ?_⟩
          rw [← List.singleton_append, Reports.Likeness.last_append, hnone]
          exact hlast

end Interleaving

end Interleavings
