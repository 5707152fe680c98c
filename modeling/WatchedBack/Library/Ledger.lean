import Mathlib

/-! A table that is appended to and purged, and the ledger of its changes. -/

namespace Ledger

variable {α β : Type*}

/-! ### Places in a log -/

/-- An entry of a log that grew is its last one, or it stood there before. -/
theorem concat_eq_append_cons {log l₁ l₂ : List β} {e e' : β} :
    log ++ [e] = l₁ ++ e' :: l₂ ↔
      (l₁ = log ∧ e' = e ∧ l₂ = []) ∨ ∃ l, l₂ = l ++ [e] ∧ log = l₁ ++ e' :: l := by
  constructor
  · intro h
    cases l₂ using List.reverseRecOn with
    | nil =>
        obtain ⟨rfl, hlast⟩ := List.append_inj' h rfl
        exact Or.inl ⟨rfl, (List.cons.inj hlast).1.symm, rfl⟩
    | append_singleton l last =>
        have hsplit : log ++ [e] = (l₁ ++ e' :: l) ++ [last] := by simpa using h
        obtain ⟨hlog, hlast⟩ := List.append_inj' hsplit rfl
        cases hlast
        exact Or.inr ⟨l, rfl, hlog⟩
  · intro h
    rcases h with ⟨rfl, rfl, rfl⟩ | ⟨l, rfl, rfl⟩
    · rfl
    · simp

/-- What holds of each entry and the log before it, when the log grows. -/
theorem forall_split_concat {Q : List β → β → Prop} {log : List β} {e : β}
    (h : ∀ l₁ e' l₂, log = l₁ ++ e' :: l₂ → Q l₁ e') (he : Q log e) :
    ∀ l₁ e' l₂, log ++ [e] = l₁ ++ e' :: l₂ → Q l₁ e' := by
  intro l₁ e' l₂ hlog
  rcases concat_eq_append_cons.mp hlog with ⟨rfl, rfl, -⟩ | ⟨l, -, hold⟩
  · exact he
  · exact h l₁ e' l hold

/-! ### Changes -/

inductive Change (α : Type*)
  | insert (rows : List α)
  | keep (p : α → Bool)

namespace Change

def apply (table : List α) : Change α → List α
  | insert rows => table ++ rows
  | keep p => table.filter p

def rows : Change α → List α
  | insert rows => rows
  | keep _ => []

end Change

/-- The table after the changes. -/
def replay (changes : List (Change α)) : List α := changes.foldl Change.apply []

/-- All rows that were ever inserted. -/
def inserted (changes : List (Change α)) : List α := changes.flatMap Change.rows

@[simp] theorem replay_nil : replay ([] : List (Change α)) = [] := rfl

@[simp] theorem replay_concat (changes : List (Change α)) (c : Change α) :
    replay (changes ++ [c]) = c.apply (replay changes) := by
  simp [replay]

@[simp] theorem inserted_nil : inserted ([] : List (Change α)) = [] := rfl

@[simp] theorem inserted_append (changes more : List (Change α)) :
    inserted (changes ++ more) = inserted changes ++ inserted more := by
  simp [inserted]

@[simp] theorem inserted_singleton (c : Change α) : inserted [c] = c.rows := by
  simp [inserted]

theorem mem_inserted {changes : List (Change α)} {x : α} :
    x ∈ inserted changes ↔ ∃ c ∈ changes, x ∈ c.rows := by
  simp [inserted]

/-- A row stays until a purge takes it. -/
theorem mem_replay_append {changes more : List (Change α)} {x : α} (h : x ∈ replay changes) :
    x ∈ replay (changes ++ more) ∨ ∃ p, Change.keep p ∈ more ∧ p x = false := by
  induction more using List.reverseRecOn with
  | nil => exact Or.inl (by simpa using h)
  | append_singleton more c ih =>
      rcases ih with hkept | ⟨p, hp, hx⟩
      · rw [← List.append_assoc, replay_concat]
        cases c with
        | insert rows => exact Or.inl (List.mem_append_left _ hkept)
        | keep p =>
            cases hx : p x with
            | true => exact Or.inl (List.mem_filter.mpr ⟨hkept, hx⟩)
            | false => exact Or.inr ⟨p, by simp, hx⟩
      · exact Or.inr ⟨p, List.mem_append_left _ hp, hx⟩

/-! ### Tables that are purged from below -/

section bound

variable {changes : List (Change α)} {key : α → ℤ} {bound : ℤ}

/-- The table has all inserted rows from a bound on. -/
def From (key : α → ℤ) (bound : ℤ) (changes : List (Change α)) : Prop :=
  replay changes = (inserted changes).filter fun x => bound ≤ key x

theorem from_nil (key : α → ℤ) (bound : ℤ) : From key bound ([] : List (Change α)) := rfl

theorem From.insert (h : From key bound changes) {rows : List α}
    (hrows : ∀ x ∈ rows, bound ≤ key x) : From key bound (changes ++ [.insert rows]) := by
  have hall : (rows.filter fun x => decide (bound ≤ key x)) = rows := by
    rw [List.filter_eq_self]
    exact fun x hx => decide_eq_true (hrows x hx)
  rw [From, replay_concat, inserted_append, inserted_singleton, List.filter_append, ← h]
  simp only [Change.apply, Change.rows, hall]

theorem From.keep (h : From key bound changes) {p : α → Bool} {b : ℤ}
    (hp : ∀ x ∈ replay changes, p x = true ↔ b ≤ key x) :
    From key (max bound b) (changes ++ [.keep p]) := by
  rw [From, replay_concat, inserted_append, inserted_singleton, Change.rows, List.append_nil]
  have hfilter : (replay changes).filter p = (replay changes).filter fun x => b ≤ key x := by
    apply List.filter_congr
    intro x hx
    rw [Bool.eq_iff_iff, decide_eq_true_eq]
    exact hp x hx
  rw [Change.apply, hfilter, h, List.filter_filter]
  apply List.filter_congr
  intro x _
  rw [Bool.eq_iff_iff]
  simp only [Bool.and_eq_true, decide_eq_true_eq, max_le_iff, and_comm]

end bound

end Ledger
