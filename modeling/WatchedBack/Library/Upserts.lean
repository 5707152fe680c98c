import Mathlib

/-! Tables with a unique key, and inserts that overwrite the row of their key. -/

namespace Upserts

universe u v

/-- A selection that gives each key at most one row, and one of that key, repeats no key. -/
theorem nodup_map_filterMap {α : Type u} {κ : Type v} {f : κ → Option α} {key : α → κ}
    (h : ∀ k x, f k = some x → key x = k) {keys : List κ} (hkeys : keys.Nodup) :
    ((keys.filterMap f).map key).Nodup := by
  rw [List.map_filterMap]
  apply hkeys.filterMap
  intro k k' b hk hk'
  obtain ⟨x, hx, rfl⟩ := Option.map_eq_some_iff.mp hk
  obtain ⟨x', hx', heq⟩ := Option.map_eq_some_iff.mp hk'
  rw [← h k x hx, ← h k' x' hx', heq]

variable {α : Type u} {κ : Type v} [DecidableEq κ]

/-- No two rows have one key. -/
structure Table (key : α → κ) where
  rows : List α
  unique : (rows.map key).Nodup

namespace Table

variable {key : α → κ}

def empty : Table key := ⟨[], List.nodup_nil⟩

/-- Whether the table has a row of the key. -/
def has (t : Table key) (k : κ) : Prop := k ∈ t.rows.map key

instance (t : Table key) (k : κ) : Decidable (t.has k) := inferInstanceAs (Decidable (_ ∈ _))

/-- The row takes the place of the one of its key. -/
def replace (t : Table key) (x : α) : Table key :=
  ⟨t.rows.map fun y => if key y = key x then x else y, by
    have hkeys : key ∘ (fun y => if key y = key x then x else y) = key := by
      funext y
      dsimp only [Function.comp_apply]
      split
      · next heq => exact heq.symm
      · rfl
    rw [List.map_map, hkeys]
    exact t.unique⟩

/-- A row of a new key. -/
def append (t : Table key) (x : α) (h : ¬ t.has (key x)) : Table key :=
  ⟨t.rows ++ [x], by
    rw [List.map_append, List.map_singleton, List.nodup_append]
    refine ⟨t.unique, List.nodup_singleton _, ?_⟩
    intro a ha b hb heq
    rw [List.mem_singleton] at hb
    rw [heq, hb] at ha
    exact h ha⟩

/-- `insert … on duplicate key update` of all columns. -/
def upsert (t : Table key) (x : α) : Table key :=
  if h : t.has (key x) then t.replace x else t.append x h

/-- The rows of an insert; it fails as a whole if it meets a key. -/
def insertAll (t : Table key) (xs : List α) : Option (Table key) :=
  if h : (t.rows ++ xs).map key |>.Nodup then some ⟨t.rows ++ xs, h⟩ else none

/-! ### Rows -/

variable {t : Table key} {x y : α}

theorem mem_upsert : y ∈ (t.upsert x).rows ↔ y = x ∨ y ∈ t.rows ∧ key y ≠ key x := by
  unfold upsert
  split
  · next h =>
    obtain ⟨z, hz, heq⟩ := List.mem_map.mp h
    simp only [replace, List.mem_map]
    constructor
    · rintro ⟨w, hw, rfl⟩
      split
      · exact Or.inl rfl
      · next hne => exact Or.inr ⟨hw, hne⟩
    · intro hy
      rcases hy with rfl | ⟨hy, hne⟩
      · exact ⟨z, hz, if_pos heq⟩
      · exact ⟨y, hy, if_neg hne⟩
  · next h =>
    simp only [append, List.mem_append, List.mem_singleton]
    constructor
    · intro hy
      rcases hy with hy | rfl
      · apply Or.inr
        apply And.intro hy
        intro heq
        exact h (List.mem_map.mpr ⟨y, hy, heq⟩)
      · exact Or.inl rfl
    · intro hy
      rcases hy with rfl | ⟨hy, -⟩
      · exact Or.inr rfl
      · exact Or.inl hy

/-- A key that is there stays there. -/
theorem has_upsert {k : κ} : (t.upsert x).has k ↔ k = key x ∨ t.has k := by
  unfold has
  simp only [List.mem_map]
  constructor
  · rintro ⟨y, hy, rfl⟩
    rcases mem_upsert.mp hy with rfl | ⟨hold, -⟩
    · exact Or.inl rfl
    · exact Or.inr ⟨y, hold, rfl⟩
  · intro h
    by_cases heq : k = key x
    · exact ⟨x, mem_upsert.mpr (Or.inl rfl), heq.symm⟩
    · obtain ⟨y, hy, rfl⟩ := h.resolve_left heq
      exact ⟨y, mem_upsert.mpr (Or.inr ⟨hy, heq⟩), rfl⟩

/-! ### Sums -/

/-- The sum of a number of each row. -/
def total (t : Table key) (w : α → ℕ) : ℕ := (t.rows.map w).sum

/-- What the row of a key holds. -/
def weight (t : Table key) (w : α → ℕ) (k : κ) : ℕ :=
  ((t.rows.filter fun y => key y = k).map w).sum

theorem weight_of_not_has (w : α → ℕ) {k : κ} (h : ¬ t.has k) : t.weight w k = 0 := by
  have hnone : (t.rows.filter fun y => key y = k) = [] := by
    rw [List.filter_eq_nil_iff]
    intro y hy heq
    exact h (List.mem_map.mpr ⟨y, hy, of_decide_eq_true heq⟩)
  rw [weight, hnone]
  rfl

theorem weight_eq_zero_iff (w : α → ℕ) {k : κ} :
    t.weight w k = 0 ↔ ∀ y ∈ t.rows, key y = k → w y = 0 := by
  rw [weight, List.sum_eq_zero_iff]
  simp only [List.mem_map, List.mem_filter, decide_eq_true_eq]
  constructor
  · intro h y hy hk
    exact h (w y) ⟨y, ⟨hy, hk⟩, rfl⟩
  · rintro h _ ⟨y, ⟨hy, hk⟩, rfl⟩
    exact h y hy hk

/-- What is overwritten is lost. -/
theorem total_upsert (t : Table key) (w : α → ℕ) (x : α) :
    (t.upsert x).total w + t.weight w (key x) = t.total w + w x := by
  unfold upsert
  split
  · next h =>
    obtain ⟨rows, unique⟩ := t
    simp only [replace, total, weight, has] at h ⊢
    -- the row of the key is the head, or it is in the tail
    induction rows with
    | nil => simp at h
    | cons y rows ih =>
        obtain ⟨hnot, hrest⟩ := List.nodup_cons.mp unique
        by_cases heq : key y = key x
        · rw [heq] at hnot
          have hkeep : (rows.map fun z => if key z = key x then x else z) = rows := by
            rw [List.map_congr_left (g := id)]
            · exact List.map_id rows
            · intro z hz
              apply if_neg
              intro hzx
              exact hnot (List.mem_map.mpr ⟨z, hz, hzx⟩)
          have hnone : (rows.filter fun z => key z = key x) = [] := by
            rw [List.filter_eq_nil_iff]
            intro z hz hzx
            exact hnot (List.mem_map.mpr ⟨z, hz, of_decide_eq_true hzx⟩)
          simp only [List.map_cons, heq, if_true, hkeep, List.sum_cons, decide_true,
            List.filter_cons_of_pos, hnone, List.map_nil, List.sum_nil]
          omega
        · have hin : key x ∈ rows.map key := by
            rcases List.mem_cons.mp h with hx | hx
            · exact absurd hx.symm heq
            · exact hx
          have htail := ih hrest hin
          simp only [List.map_cons, heq, if_false, List.sum_cons, decide_false, Bool.false_eq_true,
            not_false_eq_true, List.filter_cons_of_neg] at htail ⊢
          omega
  · next h =>
    rw [weight_of_not_has w h]
    simp [append, total]

end Table

end Upserts
