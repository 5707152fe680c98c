import Mathlib

/-! # Taking over what lies before a cut-off

A source is read by jobs, each up to a cut-off, and what they take over is put into a target.
Of a key all that counts is its time. -/

namespace Watermarks

variable {κ : Type*} {time : κ → ℤ} {passed : Set ℤ} {given given' source target : Set κ}

/-- The keys of the source before a cut-off that has passed were given to the target, and
every key of the target lies before such a cut-off. -/
structure Covers (time : κ → ℤ) (passed : Set ℤ) (given source target : Set κ) : Prop where
  source_given : ∀ k ∈ source, ∀ c ∈ passed, time k < c → k ∈ given
  target_passed : ∀ k ∈ target, ∃ c ∈ passed, time k < c

theorem covers_empty (time : κ → ℤ) (passed : Set ℤ) (given : Set κ) :
    Covers time passed given ∅ ∅ :=
  ⟨nofun, nofun⟩

/-- Keys may be dropped from both sides. -/
theorem Covers.drop {source' target' : Set κ} (h : Covers time passed given source target)
    (hsource : source' ⊆ source) (htarget : target' ⊆ target) :
    Covers time passed given source' target' :=
  ⟨fun k hk => h.source_given k (hsource hk), fun k hk => h.target_passed k (htarget hk)⟩

theorem Covers.give (h : Covers time passed given source target) (hgiven : given ⊆ given') :
    Covers time passed given' source target :=
  ⟨fun k hk c hc hlt => hgiven (h.source_given k hk c hc hlt), h.target_passed⟩

/-- What arrives lies past all cut-offs. -/
theorem Covers.arrive {more : Set κ} (h : Covers time passed given source target)
    (hmore : ∀ k ∈ more, ∀ c ∈ passed, c ≤ time k) :
    Covers time passed given (source ∪ more) target := by
  refine ⟨?_, h.target_passed⟩
  intro k hk c hc hlt
  rcases hk with hold | hnew
  · exact h.source_given k hold c hc hlt
  · exact absurd hlt (hmore k hnew c hc).not_gt

/-- A job with a cut-off leaves out only keys that the target has passed already. The cut-offs
may come in any order. -/
theorem Covers.cut {selected : Set κ} {before : ℤ} (h : Covers time passed given source target)
    (hgiven : given ⊆ given') (hselected : ∀ k ∈ selected, time k < before)
    (hall : ∀ k ∈ source, time k < before → k ∈ given' ∨ ∃ k' ∈ target, time k ≤ time k') :
    Covers time (insert before passed) given' source (target ∪ selected) := by
  refine ⟨?_, ?_⟩
  · intro k hk c hc hlt
    rcases hc with rfl | hold
    · rcases hall k hk hlt with hnew | ⟨k', hk', hle⟩
      · exact hnew
      · obtain ⟨c', hc', hlt'⟩ := h.target_passed k' hk'
        exact hgiven (h.source_given k hk c' hc' (hle.trans_lt hlt'))
    · exact hgiven (h.source_given k hk c hold hlt)
  · intro k hk
    rcases hk with hold | hnew
    · obtain ⟨c, hc, hlt⟩ := h.target_passed k hold
      exact ⟨c, Set.mem_insert_of_mem _ hc, hlt⟩
    · exact ⟨before, Set.mem_insert _ _, hselected k hnew⟩

end Watermarks
