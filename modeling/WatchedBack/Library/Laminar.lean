import Mathlib

/-! Rows of several ranks, whose cells are nested or disjoint, and views that show the finest
of them. -/

namespace Laminar

structure Family (X T : Type*) where
  rows : Set X
  rank : X → ℕ
  cell : X → Set T
  nonempty : ∀ x ∈ rows, (cell x).Nonempty
  nested : ∀ x ∈ rows, ∀ y ∈ rows, rank y < rank x → cell y ⊆ cell x ∨ Disjoint (cell y) (cell x)

variable {X T : Type*} (F : Family X T)

/-- A row of a finer rank lies inside the row. -/
def Refined (x : X) : Prop := ∃ y ∈ F.rows, F.rank y < F.rank x ∧ F.cell y ⊆ F.cell x

/-- Rows of different ranks do not overlap in the view. -/
def Separate (view : Set X) : Prop :=
  ∀ x ∈ view, ∀ y ∈ view, F.rank x ≠ F.rank y → Disjoint (F.cell x) (F.cell y)

/-- The view has the rows without finer rows. -/
def Covers (view : Set X) : Prop := ∀ x ∈ F.rows, ¬ Refined F x → x ∈ view

variable {F} {view : Set X}

/-- Inside of every row there is one that the view shows. -/
theorem Covers.exists_inside (h : Covers F view) {x : X} (hx : x ∈ F.rows) :
    ∃ y ∈ F.rows, y ∈ view ∧ F.rank y ≤ F.rank x ∧ F.cell y ⊆ F.cell x := by
  induction hrank : F.rank x using Nat.strong_induction_on generalizing x with
  | _ n ih =>
      by_cases hrefined : Refined F x
      · obtain ⟨y, hy, hlt, hsub⟩ := hrefined
        obtain ⟨z, hz, hview, hle, hsub'⟩ := ih (F.rank y) (hrank ▸ hlt) hy rfl
        exact ⟨z, hz, hview, by omega, hsub'.trans hsub⟩
      · exact ⟨x, hx, h x hx hrefined, hrank.le, subset_rfl⟩

/-- A view without overlaps and gaps shows exactly the rows without finer rows. -/
theorem separate_and_covers_iff (hview : view ⊆ F.rows) :
    Separate F view ∧ Covers F view ↔ ∀ x ∈ F.rows, x ∈ view ↔ ¬ Refined F x := by
  constructor
  · intro ⟨hsep, hcov⟩ x hx
    refine ⟨fun hin hrefined => ?_, hcov x hx⟩
    -- the view shows a row inside of the finer one
    obtain ⟨y, hy, hlt, hsub⟩ := hrefined
    obtain ⟨z, hz, hzview, hle, hsub'⟩ := hcov.exists_inside hy
    have hdisj := hsep x hin z hzview (by omega)
    obtain ⟨t, ht⟩ := F.nonempty z hz
    exact Set.disjoint_left.mp hdisj (hsub (hsub' ht)) ht
  · intro h
    have hfiner : ∀ x ∈ view, ∀ y ∈ view, F.rank y < F.rank x →
        Disjoint (F.cell y) (F.cell x) := by
      intro x hx y hy hlt
      rcases F.nested x (hview hx) y (hview hy) hlt with hsub | hdisj
      · exact absurd ⟨y, hview hy, hlt, hsub⟩ ((h x (hview hx)).mp hx)
      · exact hdisj
    refine ⟨fun x hx y hy hne => ?_, fun x hx => (h x hx).mpr⟩
    rcases Nat.lt_or_gt_of_ne hne with hlt | hgt
    · exact hfiner y hy x hx hlt
    · exact (hfiner x hx y hy hgt).symm

end Laminar
