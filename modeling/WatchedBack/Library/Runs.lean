import Mathlib

/-! Runs of machines whose every move is a function of the state. -/

namespace Runs

universe u v

variable {σ : Type u} {α : Type v}

/-- The property holds in every state of the run. -/
def Always (f : σ → α → σ) (P : σ → Prop) (s : σ) (xs : List α) : Prop :=
  ∀ before after, xs = before ++ after → P (before.foldl f s)

/-- Every step meets the condition in the state that it starts from. -/
def EachStep (f : σ → α → σ) (C : σ → α → Prop) (s : σ) (xs : List α) : Prop :=
  ∀ before x after, xs = before ++ x :: after → C (before.foldl f s) x

variable {f : σ → α → σ} {P : σ → Prop} {C : σ → α → Prop} {s : σ} {x : α} {xs : List α}

/-- What every step keeps holds after the run. -/
theorem foldl_invariant (hstep : ∀ s, ∀ x ∈ xs, P s → P (f s x)) (hs : P s) : P (xs.foldl f s) := by
  induction xs generalizing s with
  | nil => exact hs
  | cons x xs ih =>
      apply ih
      · intro s y hy
        exact hstep s y (List.mem_cons_of_mem x hy)
      · exact hstep s x List.mem_cons_self hs

/-- A run that keeps its moves. -/
theorem foldl_concat (xs ys : List α) : xs.foldl (fun zs x => zs ++ [x]) ys = ys ++ xs := by
  induction xs generalizing ys with
  | nil => simp
  | cons x xs ih => rw [List.foldl_cons, ih, List.append_assoc, List.singleton_append]

theorem always_nil : Always f P s [] ↔ P s := by
  constructor
  · intro h
    exact h [] [] rfl
  · intro h before after heq
    obtain ⟨rfl, -⟩ := List.append_eq_nil_iff.mp heq.symm
    exact h

theorem always_cons : Always f P s (x :: xs) ↔ P s ∧ Always f P (f s x) xs := by
  constructor
  · intro h
    apply And.intro (h [] (x :: xs) rfl)
    intro before after heq
    exact h (x :: before) after (by rw [heq]; rfl)
  · intro h before after heq
    cases before with
    | nil => exact h.1
    | cons y before =>
        cases heq
        exact h.2 before after rfl

theorem eachStep_nil : EachStep f C s [] := by
  intro before x after heq
  exact absurd heq (by simp)

theorem eachStep_cons : EachStep f C s (x :: xs) ↔ C s x ∧ EachStep f C (f s x) xs := by
  constructor
  · intro h
    apply And.intro (h [] x xs rfl)
    intro before y after heq
    exact h (x :: before) y after (by rw [heq]; rfl)
  · intro h before y after heq
    cases before with
    | nil =>
        cases heq
        exact h.1
    | cons z before =>
        cases heq
        exact h.2 before y after rfl

theorem eachStep_append {ys : List α} : EachStep f C s (xs ++ ys) ↔
    EachStep f C s xs ∧ EachStep f C (xs.foldl f s) ys := by
  induction xs generalizing s with
  | nil => exact (and_iff_right eachStep_nil).symm
  | cons x xs ih => rw [List.cons_append, eachStep_cons, eachStep_cons, ih, and_assoc, List.foldl_cons]

/-- A test of every step, which can be evaluated. -/
def testSteps (f : σ → α → σ) (test : σ → α → Bool) : σ → List α → Bool
  | _, [] => true
  | s, x :: xs => test s x && testSteps f test (f s x) xs

theorem eachStep_of_testSteps {test : σ → α → Bool} (h : ∀ s x, test s x = true → C s x)
    (hrun : testSteps f test s xs = true) : EachStep f C s xs := by
  induction xs generalizing s with
  | nil => exact eachStep_nil
  | cons x xs ih =>
      obtain ⟨hx, hxs⟩ := (Bool.and_eq_true _ _).mp hrun
      exact eachStep_cons.mpr ⟨h s x hx, ih hxs⟩

/-- Where a step keeps the property exactly under a condition, a run has the property throughout
exactly if each of its steps meets the condition. The proof of a step may use an invariant, and a
promise about the steps of the run. -/
theorem always_iff_eachStep_of (I : σ → Prop) (H : σ → α → Prop)
    (hkeep : ∀ s x, I s → H s x → I (f s x))
    (hstep : ∀ s x, I s → H s x → P s → (P (f s x) ↔ C s x))
    (hI : I s) (hP : P s) (hH : EachStep f H s xs) : Always f P s xs ↔ EachStep f C s xs := by
  induction xs generalizing s with
  | nil => exact iff_of_true (always_nil.mpr hP) eachStep_nil
  | cons x xs ih =>
      obtain ⟨hHx, hHrest⟩ := eachStep_cons.mp hH
      rw [always_cons, eachStep_cons]
      have hkept := hkeep s x hI hHx
      have hx := hstep s x hI hHx hP
      constructor
      · intro h
        have hPx : P (f s x) := h.2 [] xs rfl
        exact ⟨hx.mp hPx, (ih hkept hPx hHrest).mp h.2⟩
      · intro h
        exact ⟨hP, (ih hkept (hx.mpr h.1) hHrest).mpr h.2⟩

theorem always_iff_eachStep (hstep : ∀ s x, P s → (P (f s x) ↔ C s x)) (hP : P s) :
    Always f P s xs ↔ EachStep f C s xs :=
  always_iff_eachStep_of (fun _ => True) (fun _ _ => True) (fun _ _ _ _ => trivial)
    (fun s x _ _ => hstep s x) trivial hP (fun _ _ _ _ => trivial)

/-- What no step brings about was there before the run. -/
theorem of_foldl (I : σ → Prop) (hkeep : ∀ s x, I s → I (f s x))
    (hback : ∀ s x, I s → P (f s x) → P s) (hI : I s) (h : P (xs.foldl f s)) : P s := by
  induction xs generalizing s with
  | nil => exact h
  | cons x xs ih => exact hback s x hI (ih (hkeep s x hI) h)

/-- A property that a step keeps exactly under a condition, and that is lost for good, holds after a
run exactly if each step meets the condition. -/
theorem foldl_iff_eachStep (I : σ → Prop) (hkeep : ∀ s x, I s → I (f s x))
    (hstep : ∀ s x, I s → P s → (P (f s x) ↔ C s x)) (hback : ∀ s x, I s → P (f s x) → P s)
    (hI : I s) (hP : P s) : P (xs.foldl f s) ↔ EachStep f C s xs := by
  induction xs generalizing s with
  | nil => exact iff_of_true hP eachStep_nil
  | cons x xs ih =>
      rw [List.foldl_cons, eachStep_cons]
      have hkept := hkeep s x hI
      have hx := hstep s x hI hP
      constructor
      · intro h
        have hPx := of_foldl I hkeep hback hkept h
        exact ⟨hx.mp hPx, (ih hkept hPx).mp h⟩
      · intro h
        exact (ih hkept (hx.mpr h.1)).mpr h.2

end Runs
