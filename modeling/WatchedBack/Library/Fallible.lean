import Mathlib

/-! Loops that may stop with a fault: rules for `Except` and its left fold. -/

namespace Fallible

universe u v

variable {ε : Type u} {α β σ : Type v}

theorem bind_eq_ok {x : Except ε α} {f : α → Except ε β} {b : β} :
    x >>= f = .ok b ↔ ∃ a, x = .ok a ∧ f a = .ok b := by
  cases x with
  | error e => simp [bind, Except.bind]
  | ok a => simp [bind, Except.bind]

theorem map_eq_ok {x : Except ε α} {f : α → β} {b : β} :
    x.map f = .ok b ↔ ∃ a, x = .ok a ∧ f a = b := by
  cases x with
  | error e => simp [Except.map]
  | ok a => simp [Except.map]

@[simp] theorem ok_bind (a : α) (f : α → Except ε β) : Except.ok a >>= f = f a := rfl

@[simp] theorem error_bind (e : ε) (f : α → Except ε β) : Except.error e >>= f = .error e := rfl

@[simp] theorem pure_eq_ok (a : α) : (pure a : Except ε α) = .ok a := rfl

@[simp] theorem foldlM_nil (f : σ → α → Except ε σ) (s : σ) : [].foldlM f s = .ok s := rfl

theorem foldlM_cons_eq_ok {f : σ → α → Except ε σ} {s s' : σ} {x : α} {xs : List α} :
    (x :: xs).foldlM f s = .ok s' ↔ ∃ m, f s x = .ok m ∧ xs.foldlM f m = .ok s' := by
  rw [List.foldlM_cons, bind_eq_ok]

theorem foldlM_append_eq_ok {f : σ → α → Except ε σ} {s s' : σ} {xs ys : List α} :
    (xs ++ ys).foldlM f s = .ok s' ↔ ∃ m, xs.foldlM f s = .ok m ∧ ys.foldlM f m = .ok s' := by
  rw [List.foldlM_append, bind_eq_ok]

/-- A loop that ran through kept its invariant, and every element passed what its iteration
demands of it. -/
theorem foldlM_forall {f : σ → α → Except ε σ} {xs : List α} (P : σ → Prop) (Q : α → Prop)
    (hstep : ∀ s s', ∀ x ∈ xs, P s → f s x = .ok s' → P s' ∧ Q x) {s s' : σ}
    (hs : P s) (hrun : xs.foldlM f s = .ok s') : P s' ∧ ∀ x ∈ xs, Q x := by
  induction xs generalizing s with
  | nil =>
      cases hrun
      exact ⟨hs, by simp⟩
  | cons x xs ih =>
      obtain ⟨m, hm, hrest⟩ := foldlM_cons_eq_ok.mp hrun
      obtain ⟨hPm, hx⟩ := hstep s m x List.mem_cons_self hs hm
      obtain ⟨hP, hxs⟩ := ih (fun s s' y hy => hstep s s' y (List.mem_cons_of_mem x hy)) hPm hrest
      exact ⟨hP, List.forall_mem_cons.mpr ⟨hx, hxs⟩⟩

/-- An invariant that every iteration keeps holds after the loop. -/
theorem foldlM_invariant {f : σ → α → Except ε σ} {xs : List α} (P : σ → Prop)
    (hstep : ∀ s s', ∀ x ∈ xs, P s → f s x = .ok s' → P s') {s s' : σ}
    (hs : P s) (hrun : xs.foldlM f s = .ok s') : P s' :=
  (foldlM_forall P (fun _ => True) (fun s s' x hx h hf => ⟨hstep s s' x hx h hf, trivial⟩) hs
    hrun).1

/-- A loop whose iterations return what a function of a value of the element gives. -/
theorem foldlM_eq_ok_foldl {γ : Type v} {f : σ → α → Except ε σ} {xs : List α} (g : σ → γ → σ)
    (valueOf : α → γ) (hstep : ∀ x ∈ xs, ∀ s, f s x = .ok (g s (valueOf x))) (s : σ) :
    xs.foldlM f s = .ok ((xs.map valueOf).foldl g s) := by
  induction xs generalizing s with
  | nil => rfl
  | cons x xs ih =>
      apply foldlM_cons_eq_ok.mpr
      refine ⟨g s (valueOf x), hstep x List.mem_cons_self s, ?_⟩
      exact ih (fun y hy => hstep y (List.mem_cons_of_mem x hy)) (g s (valueOf x))

/-- A loop whose iterations leave the state as it is. -/
theorem foldlM_eq_ok_self {f : σ → α → Except ε σ} {xs : List α} {s : σ}
    (hstep : ∀ x ∈ xs, f s x = .ok s) : xs.foldlM f s = .ok s := by
  induction xs with
  | nil => rfl
  | cons x xs ih =>
      rw [List.foldlM_cons, hstep x List.mem_cons_self]
      exact ih fun y hy => hstep y (List.mem_cons_of_mem x hy)

/-- A loop commutes with a map of its states that each iteration commutes with. -/
theorem map_foldlM {τ : Type v} {f : σ → α → Except ε σ} {g : τ → α → Except ε τ} (view : σ → τ)
    (h : ∀ s x, (f s x).map view = g (view s) x) (xs : List α) (s : σ) :
    (xs.foldlM f s).map view = xs.foldlM g (view s) := by
  induction xs generalizing s with
  | nil => rfl
  | cons x xs ih =>
      rw [List.foldlM_cons, List.foldlM_cons, ← h]
      cases f s x with
      | error e => rfl
      | ok m => exact ih m

/-- Evaluating a run and looking at its result. -/
theorem exists_ok_of_toOption_map {x : Except ε α} {g : α → β} {b : β}
    (h : x.toOption.map g = some b) : ∃ a, x = .ok a ∧ g a = b := by
  cases x with
  | error e => cases h
  | ok a =>
      cases h
      exact ⟨a, rfl, rfl⟩

theorem eq_ok_of_toOption {x : Except ε α} {a : α} (h : x.toOption = some a) : x = .ok a := by
  cases x with
  | error e => cases h
  | ok b =>
      cases h
      rfl

/-! ### Running without a fault -/

/-- The computation returns normally. -/
def Succeeds (x : Except ε α) : Prop := ∃ a, x = .ok a

@[simp] theorem succeeds_ok (a : α) : Succeeds (.ok a : Except ε α) := ⟨a, rfl⟩

@[simp] theorem not_succeeds_error (e : ε) : ¬ Succeeds (.error e : Except ε α) := by
  rintro ⟨a, h⟩
  cases h

/-- Evaluating a run that returns. -/
theorem succeeds_of_isSome {x : Except ε α} (h : x.toOption.isSome = true) : Succeeds x := by
  obtain ⟨a, ha⟩ := Option.isSome_iff_exists.mp h
  exact ⟨a, eq_ok_of_toOption ha⟩

theorem succeeds_iff_isSome {x : Except ε α} : Succeeds x ↔ x.toOption.isSome = true := by
  cases x with
  | error e => simp [Except.toOption]
  | ok a => simp [Except.toOption]

theorem succeeds_bind {x : Except ε α} {f : α → Except ε β} :
    Succeeds (x >>= f) ↔ ∃ a, x = .ok a ∧ Succeeds (f a) := by
  constructor
  · rintro ⟨b, h⟩
    obtain ⟨a, ha, hb⟩ := bind_eq_ok.mp h
    exact ⟨a, ha, b, hb⟩
  · rintro ⟨a, rfl, b, hb⟩
    exact ⟨b, hb⟩

/-- Where the rest returns or not, whatever the first part returns. -/
theorem succeeds_bind_and {x : Except ε α} {f : α → Except ε β} {Q : Prop}
    (h : ∀ a, Succeeds (f a) ↔ Q) : Succeeds (x >>= f) ↔ Succeeds x ∧ Q := by
  rw [succeeds_bind]
  constructor
  · rintro ⟨a, ha, hrest⟩
    exact ⟨⟨a, ha⟩, (h a).mp hrest⟩
  · rintro ⟨⟨a, ha⟩, hrest⟩
    exact ⟨a, ha, (h a).mpr hrest⟩

/-- Where the first part returns one value, and only under a condition. -/
theorem succeeds_bind_value {x : Except ε α} {f : α → Except ε β} {P : Prop} {v : α}
    (h : ∀ a, x = .ok a ↔ P ∧ a = v) : Succeeds (x >>= f) ↔ P ∧ Succeeds (f v) := by
  rw [succeeds_bind]
  constructor
  · rintro ⟨a, ha, hrest⟩
    obtain ⟨hP, rfl⟩ := (h a).mp ha
    exact ⟨hP, hrest⟩
  · rintro ⟨hP, hrest⟩
    exact ⟨v, (h v).mpr ⟨hP, rfl⟩, hrest⟩

theorem succeeds_bind_pure {x : Except ε α} {f : α → β} :
    Succeeds (x >>= fun a => pure (f a)) ↔ Succeeds x := by
  constructor
  · rintro ⟨b, h⟩
    obtain ⟨a, ha, -⟩ := bind_eq_ok.mp h
    exact ⟨a, ha⟩
  · rintro ⟨a, ha⟩
    exact ⟨f a, bind_eq_ok.mpr ⟨a, ha, rfl⟩⟩

theorem succeeds_bind_of {x : Except ε α} {f : α → Except ε β} (hx : Succeeds x)
    (hf : ∀ a, x = .ok a → Succeeds (f a)) : Succeeds (x >>= f) := by
  obtain ⟨a, ha⟩ := hx
  exact succeeds_bind.mpr ⟨a, ha, hf a ha⟩

/-- A loop whose iterations succeed from every state. -/
theorem succeeds_foldlM {f : σ → α → Except ε σ} {xs : List α}
    (hstep : ∀ s, ∀ x ∈ xs, Succeeds (f s x)) (s : σ) : Succeeds (xs.foldlM f s) := by
  induction xs generalizing s with
  | nil => exact ⟨s, rfl⟩
  | cons x xs ih =>
      obtain ⟨m, hm⟩ := hstep s x List.mem_cons_self
      obtain ⟨s', hrest⟩ := ih (fun s y hy => hstep s y (List.mem_cons_of_mem x hy)) m
      exact ⟨s', foldlM_cons_eq_ok.mpr ⟨m, hm, hrest⟩⟩

/-- A loop for its effects alone. -/
theorem succeeds_forM {f : α → Except ε PUnit} {xs : List α} :
    Succeeds (xs.forM f) ↔ ∀ x ∈ xs, Succeeds (f x) := by
  induction xs with
  | nil => exact iff_of_true ⟨_, rfl⟩ (by simp)
  | cons x xs ih =>
      rw [List.forall_mem_cons, ← ih]
      exact succeeds_bind_and fun _ => Iff.rfl

/-! ### Runs -/

section runs

/-- The property holds in every state of the run. -/
def Always (f : σ → α → Except ε σ) (P : σ → Prop) (s : σ) (xs : List α) : Prop :=
  ∀ before after t, xs = before ++ after → before.foldlM f s = .ok t → P t

/-- Every step meets the condition in the state that it starts from. -/
def EachStep (f : σ → α → Except ε σ) (C : σ → α → Prop) (s : σ) (xs : List α) : Prop :=
  ∀ before x after t, xs = before ++ x :: after → before.foldlM f s = .ok t → C t x

variable {f : σ → α → Except ε σ} {P : σ → Prop} {C : σ → α → Prop} {s m : σ} {x : α}
  {xs : List α}

theorem always_nil : Always f P s [] ↔ P s := by
  constructor
  · intro h
    exact h [] [] s rfl rfl
  · intro h before after t heq hrun
    obtain ⟨rfl, -⟩ := List.append_eq_nil_iff.mp heq.symm
    cases hrun
    exact h

theorem always_cons (hx : f s x = .ok m) : Always f P s (x :: xs) ↔ P s ∧ Always f P m xs := by
  constructor
  · intro h
    refine ⟨h [] (x :: xs) s rfl rfl, fun before after t heq hrun => ?_⟩
    exact h (x :: before) after t (by rw [heq]; rfl) (foldlM_cons_eq_ok.mpr ⟨m, hx, hrun⟩)
  · rintro ⟨hs, hrest⟩ before after t heq hrun
    cases before with
    | nil =>
        cases hrun
        exact hs
    | cons y before =>
        cases heq
        obtain ⟨m', hx', hrun⟩ := foldlM_cons_eq_ok.mp hrun
        rw [hx] at hx'
        cases hx'
        exact hrest before after t rfl hrun

theorem eachStep_nil : EachStep f C s [] := by
  intro before x after t heq
  exact absurd heq (by simp)

theorem eachStep_cons (hx : f s x = .ok m) :
    EachStep f C s (x :: xs) ↔ C s x ∧ EachStep f C m xs := by
  constructor
  · intro h
    refine ⟨h [] x xs s rfl rfl, fun before y after t heq hrun => ?_⟩
    exact h (x :: before) y after t (by rw [heq]; rfl) (foldlM_cons_eq_ok.mpr ⟨m, hx, hrun⟩)
  · rintro ⟨hs, hrest⟩ before y after t heq hrun
    cases before with
    | nil =>
        cases heq
        cases hrun
        exact hs
    | cons z before =>
        cases heq
        obtain ⟨m', hx', hrun⟩ := foldlM_cons_eq_ok.mp hrun
        rw [hx] at hx'
        cases hx'
        exact hrest before y after t rfl hrun

theorem eachStep_singleton : EachStep f C s [x] ↔ C s x := by
  constructor
  · intro h
    exact h [] x [] s rfl rfl
  · intro h before y after t heq hrun
    cases before with
    | nil =>
        cases heq
        cases hrun
        exact h
    | cons z before => exact absurd (congrArg List.length heq) (by simp)

/-- A loop returns exactly if each of its iterations does. -/
theorem succeeds_foldlM_iff :
    Succeeds (xs.foldlM f s) ↔ EachStep f (fun t x => Succeeds (f t x)) s xs := by
  induction xs generalizing s with
  | nil => exact iff_of_true ⟨s, rfl⟩ eachStep_nil
  | cons x xs ih =>
      rw [List.foldlM_cons, succeeds_bind]
      constructor
      · rintro ⟨m, hx, hrest⟩
        exact (eachStep_cons hx).mpr ⟨⟨m, hx⟩, ih.mp hrest⟩
      · intro h
        obtain ⟨m, hx⟩ := h [] x xs s rfl rfl
        exact ⟨m, hx, ih.mpr ((eachStep_cons hx).mp h).2⟩

/-- Conditions that mean the same at every step. -/
theorem eachStep_congr {D : σ → α → Prop} (h : ∀ t, ∀ x, C t x ↔ D t x) :
    EachStep f C s xs ↔ EachStep f D s xs := by
  simp only [EachStep, h]

/-- Where a step keeps the property exactly under a condition, a run has the property throughout
exactly if each of its steps meets the condition. The proof of a step may use an invariant, and a
promise about the steps of the run. -/
theorem always_iff_eachStep_of (I : σ → Prop) (H : σ → α → Prop)
    (hkeep : ∀ s x s', I s → H s x → f s x = .ok s' → I s')
    (hstep : ∀ s x s', I s → I s' → P s → f s x = .ok s' → (P s' ↔ C s x))
    (hI : I s) (hP : P s) (hH : EachStep f H s xs) (hrun : Succeeds (xs.foldlM f s)) :
    Always f P s xs ↔ EachStep f C s xs := by
  induction xs generalizing s with
  | nil => exact iff_of_true (always_nil.mpr hP) eachStep_nil
  | cons x xs ih =>
      obtain ⟨s', hrun⟩ := hrun
      obtain ⟨m, hx, hrest⟩ := foldlM_cons_eq_ok.mp hrun
      obtain ⟨hHx, hHrest⟩ := (eachStep_cons hx).mp hH
      rw [always_cons hx, eachStep_cons hx]
      have hIm := hkeep s x m hI hHx hx
      have hm := hstep s x m hI hIm hP hx
      constructor
      · intro h
        have hPm : P m := h.2 [] xs m rfl rfl
        exact ⟨hm.mp hPm, (ih hIm hPm hHrest ⟨s', hrest⟩).mp h.2⟩
      · intro h
        exact ⟨hP, (ih hIm (hm.mpr h.1) hHrest ⟨s', hrest⟩).mpr h.2⟩

theorem always_iff_eachStep (I : σ → Prop)
    (hkeep : ∀ s x s', I s → f s x = .ok s' → I s')
    (hstep : ∀ s x s', I s → P s → f s x = .ok s' → (P s' ↔ C s x))
    (hI : I s) (hP : P s) (hrun : Succeeds (xs.foldlM f s)) :
    Always f P s xs ↔ EachStep f C s xs := by
  apply always_iff_eachStep_of I (fun _ _ => True) (fun s x s' h _ => hkeep s x s' h)
    (fun s x s' h _ => hstep s x s' h) hI hP
  · intro before x after t _ _
    trivial
  · exact hrun

end runs

end Fallible
