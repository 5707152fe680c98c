import WatchedBack.Library.Fallible

/-! Two versions of a computation that gives outputs. The second one hands each output on as it is
made, and stops where that fails. It returns what the first one returns, if every output of that run
can be handed on. -/

namespace Outputs

open Fallible

universe u v

section checked

variable {β : Type v} (P : ℕ → β → Prop)

/-- The outputs that were added can be handed on, each at its place. -/
def Checked (before after : List β) : Prop :=
  ∀ n b, before.length ≤ n → after[n]? = some b → P n b

variable {P} {before mid after : List β}

theorem checked_self : Checked P before before := by
  intro n b hn hb
  rw [List.getElem?_eq_none hn] at hb
  cases hb

theorem checked_nil : Checked P [] after ↔ ∀ n b, after[n]? = some b → P n b := by
  constructor
  · intro h n b hb
    exact h n b (Nat.zero_le n) hb
  · intro h n b _ hb
    exact h n b hb

theorem checked_append {xs : List β} :
    Checked P before (before ++ xs) ↔ ∀ n b, xs[n]? = some b → P (before.length + n) b := by
  constructor
  · intro h n b hb
    apply h _ _ (Nat.le_add_right _ _)
    rwa [List.getElem?_append_right (Nat.le_add_right _ _), Nat.add_sub_cancel_left]
  · intro h n b hn hb
    rw [List.getElem?_append_right hn] at hb
    have hplace := h _ _ hb
    rwa [Nat.add_sub_cancel' hn] at hplace

theorem checked_singleton {b : β} : Checked P before (before ++ [b]) ↔ P before.length b := by
  rw [checked_append]
  constructor
  · intro h
    exact h 0 b rfl
  · intro h n x hx
    cases n with
    | zero =>
        cases hx
        exact h
    | succ n => simp at hx

/-- What is added first and then, and what is added in all. -/
theorem checked_trans (h : before <+: mid) (h' : mid <+: after) :
    Checked P before after ↔ Checked P before mid ∧ Checked P mid after := by
  obtain ⟨xs, rfl⟩ := h
  obtain ⟨ys, rfl⟩ := h'
  constructor
  · intro hall
    refine ⟨fun n b hn hb => ?_, fun n b hn hb => ?_⟩
    · have hlt : n < (before ++ xs).length := (List.getElem?_eq_some_iff.mp hb).1
      exact hall n b hn (by rwa [List.getElem?_append_left hlt])
    · refine hall n b (le_trans ?_ hn) hb
      rw [List.length_append]
      exact Nat.le_add_right _ _
  · rintro ⟨hfirst, hthen⟩ n b hn hb
    by_cases hlt : n < (before ++ xs).length
    · rw [List.getElem?_append_left hlt] at hb
      exact hfirst n b hn hb
    · exact hthen n b (not_lt.mp hlt) hb

end checked

section mirror

variable {ε : Type u} {α β σ τ υ : Type v} {P : ℕ → β → Prop} {before : List β}
  {out : τ → List β} {out' : υ → List β}

/-- The second computation returns what the first one returns, if the outputs that it adds can be
handed on. -/
structure Mirror (P : ℕ → β → Prop) (before : List β) (out : τ → List β) (x y : Except ε τ) :
    Prop where
  adds : ∀ t, x = .ok t → before <+: out t
  returns : ∀ t, y = .ok t ↔ x = .ok t ∧ Checked P before (out t)

/-- A part that gives no output. -/
theorem mirror_self {x : Except ε τ} (h : ∀ t, x = .ok t → out t = before) :
    Mirror P before out x x where
  adds t ht := by rw [h t ht]
  returns t := by
    constructor
    · intro ht
      rw [h t ht]
      exact ⟨ht, checked_self⟩
    · exact And.left

/-- An output is handed on before it is added. -/
theorem mirror_output {t : τ} {b : β} {hand : Except ε α} (hout : out t = before ++ [b])
    (hhand : Succeeds hand ↔ P before.length b) :
    Mirror P before out (.ok t) (hand >>= fun _ => .ok t) where
  adds t' ht := by
    cases ht
    rw [hout]
    exact List.prefix_append _ _
  returns t' := by
    rw [bind_eq_ok]
    constructor
    · rintro ⟨a, ha, ht⟩
      cases ht
      rw [hout, checked_singleton]
      exact ⟨rfl, hhand.mp ⟨a, ha⟩⟩
    · rintro ⟨ht, hchecked⟩
      cases ht
      rw [hout, checked_singleton] at hchecked
      obtain ⟨a, ha⟩ := hhand.mpr hchecked
      exact ⟨a, ha, rfl⟩

theorem mirror_bind {x y : Except ε τ} {f g : τ → Except ε υ} (hxy : Mirror P before out x y)
    (hfg : ∀ t, x = .ok t → Mirror P (out t) out' (f t) (g t)) :
    Mirror P before out' (x >>= f) (y >>= g) where
  adds u hu := by
    obtain ⟨t, ht, hu⟩ := bind_eq_ok.mp hu
    exact (hxy.adds t ht).trans ((hfg t ht).adds u hu)
  returns u := by
    rw [bind_eq_ok, bind_eq_ok]
    constructor
    · rintro ⟨t, ht, hu⟩
      obtain ⟨hx, hfirst⟩ := (hxy.returns t).mp ht
      obtain ⟨hf, hthen⟩ := ((hfg t hx).returns u).mp hu
      have hchecked := (checked_trans (hxy.adds t hx) ((hfg t hx).adds u hf)).mpr ⟨hfirst, hthen⟩
      exact ⟨⟨t, hx, hf⟩, hchecked⟩
    · rintro ⟨⟨t, hx, hf⟩, hchecked⟩
      obtain ⟨hfirst, hthen⟩ :=
        (checked_trans (hxy.adds t hx) ((hfg t hx).adds u hf)).mp hchecked
      exact ⟨t, (hxy.returns t).mpr ⟨hx, hfirst⟩, ((hfg t hx).returns u).mpr ⟨hf, hthen⟩⟩

/-- A value that is read on the way. -/
theorem mirror_read {x : Except ε α} {f g : α → Except ε τ}
    (h : ∀ a, x = .ok a → Mirror P before out (f a) (g a)) :
    Mirror P before out (x >>= f) (x >>= g) :=
  mirror_bind (mirror_self fun _ _ => rfl) h

theorem mirror_foldlM {outOf : σ → List β} {f g : σ → α → Except ε σ} {xs : List α}
    (h : ∀ s, ∀ x ∈ xs, Mirror P (outOf s) outOf (f s x) (g s x)) (s : σ) :
    Mirror P (outOf s) outOf (xs.foldlM f s) (xs.foldlM g s) := by
  induction xs generalizing s with
  | nil => exact mirror_self fun t ht => by cases ht; rfl
  | cons x xs ih =>
      rw [List.foldlM_cons, List.foldlM_cons]
      exact mirror_bind (h s x List.mem_cons_self)
        fun t _ => ih (fun s y hy => h s y (List.mem_cons_of_mem _ hy)) t

end mirror

end Outputs
