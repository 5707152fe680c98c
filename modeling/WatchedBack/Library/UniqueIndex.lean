import Mathlib

/-! Tables with a unique index, and calls that count the rows of a key, insert one if there is
none, and select its number, one statement at a time. -/

namespace UniqueIndex

universe u v

variable {α : Type u} {κ : Type v}

/-- The number and the key of a row, the row that an insert writes, and when the server takes two
keys for the same. -/
structure Index (α : Type u) (κ : Type v) where
  idOf : α → ℕ
  keyOf : α → κ
  row : ℕ → κ → α
  same : κ → κ → Bool
  refl : ∀ k, same k k = true
  symm : ∀ {k l}, same k l = true → same l k = true
  trans : ∀ {k l m}, same k l = true → same l m = true → same k m = true
  idOf_row : ∀ id k, idOf (row id k) = id
  keyOf_row : ∀ id k, keyOf (row id k) = k

/-- The row has the key. -/
def Index.found (ix : Index α κ) (k : κ) (a : α) : Bool := ix.same (ix.keyOf a) k

/-- No two rows have one key or one number. Numbers count from 1. -/
structure Table (ix : Index α κ) where
  rows : List α
  unique : rows.Pairwise fun a b => ix.same (ix.keyOf a) (ix.keyOf b) = false
  ids : (rows.map ix.idOf).Nodup
  positive : ∀ a ∈ rows, ix.idOf a ≠ 0

/-- Where a call stands: before one of its statements, or at its end. -/
inductive Point
  | count
  | insert
  | select
  | returned (id : ℕ)
  deriving DecidableEq, Repr

namespace Table

variable {ix : Index α κ}

def empty (ix : Index α κ) : Table ix := ⟨[], .nil, .nil, by simp⟩

/-- A number above all that are taken; rejected inserts leave gaps. -/
def autoIncrement (t : Table ix) (gap : ℕ) : ℕ := (t.rows.map ix.idOf).foldr max 0 + 1 + gap

theorem lt_autoIncrement (t : Table ix) (gap : ℕ) {a : α} (h : a ∈ t.rows) :
    ix.idOf a < t.autoIncrement gap := by
  have hle : ix.idOf a ≤ (t.rows.map ix.idOf).foldr max 0 :=
    List.le_max_of_le (List.mem_map_of_mem h) le_rfl
  unfold autoIncrement
  omega

/-! ### Statements -/

def count (t : Table ix) (found : α → Bool) : Bool := t.rows.any found

/-- The index rejects a key that is taken. -/
def insert (t : Table ix) (k : κ) (gap : ℕ) : Table ix :=
  if h : t.count (ix.found k) = true then t
  else
    { rows := t.rows ++ [ix.row (t.autoIncrement gap) k]
      unique := by
        apply List.pairwise_append.mpr
        refine ⟨t.unique, List.pairwise_singleton _ _, fun a ha b hb => ?_⟩
        rw [List.mem_singleton.mp hb, ix.keyOf_row, ← Bool.not_eq_true]
        exact fun hsame => h (List.any_eq_true.mpr ⟨a, ha, hsame⟩)
      ids := by
        rw [List.map_append, List.nodup_append]
        refine ⟨t.ids, List.nodup_singleton _, fun n hn m hm => ?_⟩
        obtain ⟨a, ha, rfl⟩ := List.mem_map.mp hn
        rw [List.mem_singleton.mp hm, ix.idOf_row]
        exact (t.lt_autoIncrement gap ha).ne
      positive := by
        intro a ha
        rcases List.mem_append.mp ha with hold | hnew
        · exact t.positive a hold
        · rw [List.mem_singleton.mp hnew, ix.idOf_row]
          unfold autoIncrement
          omega }

def select (t : Table ix) (found : α → Bool) : ℕ := ((t.rows.find? found).map ix.idOf).getD 0

/-- The next statement of a call. -/
def step (t : Table ix) (found : α → Bool) (k : κ) (gap : ℕ) : Point → Table ix × Point
  | .count => (t, if t.count found then .select else .insert)
  | .insert => (t.insert k gap, .select)
  | .select => (t, .returned (t.select found))
  | .returned id => (t, .returned id)

/-! ### What the statements do -/

variable {t t' : Table ix} {k l : κ} {a b : α} {gap : ℕ}

theorem rows_insert (t : Table ix) (k : κ) (gap : ℕ) :
    (t.insert k gap).rows = if t.rows.any (ix.found k) then t.rows
      else t.rows ++ [ix.row (t.autoIncrement gap) k] := by
  cases h : t.rows.any (ix.found k) <;> simp [insert, count, h]

/-- Rows are only added. -/
theorem rows_subset_insert : t.rows ⊆ (t.insert k gap).rows := by
  rw [rows_insert]
  split
  · exact List.Subset.refl _
  · exact List.subset_append_left _ _

/-- After an insert the key has a row, whether it was rejected or not. -/
theorem exists_found_insert (t : Table ix) (k : κ) (gap : ℕ) :
    ∃ a ∈ (t.insert k gap).rows, ix.found k a = true := by
  rw [rows_insert]
  split
  · next h => exact List.any_eq_true.mp h
  · apply Exists.intro (ix.row (t.autoIncrement gap) k)
    apply And.intro (List.mem_append_right _ (List.mem_singleton_self _))
    rw [Index.found, ix.keyOf_row]
    exact ix.refl k

theorem rows_subset_step (t : Table ix) (found : α → Bool) (k : κ) (gap : ℕ) (p : Point) :
    t.rows ⊆ (t.step found k gap p).1.rows := by
  cases p with
  | insert => exact rows_subset_insert
  | _ => exact List.Subset.refl _

/-- A key has one row at most. -/
theorem eq_of_found (ha : a ∈ t.rows) (hb : b ∈ t.rows) (hk : ix.same (ix.keyOf a) (ix.keyOf b) = true) :
    a = b := by
  by_contra hne
  have hsymm : Std.Symm fun a b => ix.same (ix.keyOf a) (ix.keyOf b) = false := by
    constructor
    intro a b h
    rw [← Bool.not_eq_true] at h ⊢
    exact fun h' => h (ix.symm h')
  have hdiff := t.unique.forall hb ha (Ne.symm hne)
  rw [ix.symm hk] at hdiff
  cases hdiff

theorem countP_found_le_one_of_pairwise {rows : List α}
    (h : rows.Pairwise fun a b => ix.same (ix.keyOf a) (ix.keyOf b) = false) :
    rows.countP (ix.found k) ≤ 1 := by
  induction rows with
  | nil => simp
  | cons a rows ih =>
      obtain ⟨ha, hrows⟩ := List.pairwise_cons.mp h
      rw [List.countP_cons]
      split
      · next hfound =>
        have hnone : rows.countP (ix.found k) = 0 := by
          rw [List.countP_eq_zero]
          intro b hb hfound'
          have hsame := ix.trans hfound (ix.symm hfound')
          rw [ha b hb] at hsame
          cases hsame
        omega
      · exact ih hrows

theorem countP_found_le_one (t : Table ix) (k : κ) : t.rows.countP (ix.found k) ≤ 1 :=
  countP_found_le_one_of_pairwise t.unique

theorem countP_found_eq_one (h : ∃ a ∈ t.rows, ix.found k a = true) :
    t.rows.countP (ix.found k) = 1 :=
  le_antisymm (t.countP_found_le_one k) (List.countP_pos_iff.mpr h)

/-! ### Calls -/

/-- What a call may rely on at a point, and what it has returned. -/
def Serves (t : Table ix) (found : α → Bool) : Point → Prop
  | .count => True
  | .insert => True
  | .select => ∃ a ∈ t.rows, found a = true
  | .returned id => ∃ a ∈ t.rows, found a = true ∧ ix.idOf a = id

variable {found : α → Bool}

theorem Serves.mono {p : Point} (h : t.Serves found p) (hsub : t.rows ⊆ t'.rows) :
    t'.Serves found p := by
  cases p with
  | count => trivial
  | insert => trivial
  | select =>
      obtain ⟨a, ha, hfound⟩ := h
      exact ⟨a, hsub ha, hfound⟩
  | returned id =>
      obtain ⟨a, ha, hfound, hid⟩ := h
      exact ⟨a, hsub ha, hfound, hid⟩

theorem select_found (h : ∃ a ∈ t.rows, found a = true) :
    ∃ a ∈ t.rows, found a = true ∧ ix.idOf a = t.select found := by
  obtain ⟨a, ha⟩ := Option.isSome_iff_exists.mp (List.find?_isSome.mpr h)
  apply Exists.intro a
  refine ⟨List.mem_of_find?_eq_some ha, List.find?_some ha, ?_⟩
  rw [select, ha]
  rfl

/-- Each statement establishes what the next one relies on, if the queries find the row that the
insert writes. -/
theorem Serves.step {p : Point} (gap : ℕ) (hfound : ∀ a, ix.found k a = true → found a = true)
    (h : t.Serves found p) : (t.step found k gap p).1.Serves found (t.step found k gap p).2 := by
  cases p with
  | count =>
      simp only [Table.step]
      split
      · next hcount => exact List.any_eq_true.mp hcount
      · trivial
  | insert =>
      obtain ⟨a, ha, hk⟩ := exists_found_insert t k gap
      exact ⟨a, ha, hfound a hk⟩
  | select => exact select_found h
  | returned id => exact h

/-- Two calls on one table return one number exactly if their keys are the same. -/
theorem Serves.id_eq_iff {id id' : ℕ} (h : t.Serves (ix.found k) (.returned id))
    (h' : t.Serves (ix.found l) (.returned id')) : id = id' ↔ ix.same k l = true := by
  obtain ⟨a, ha, hk, rfl⟩ := h
  obtain ⟨b, hb, hl, rfl⟩ := h'
  constructor
  · intro hid
    have heq : a = b := List.inj_on_of_nodup_map t.ids ha hb hid
    rw [← heq] at hl
    exact ix.trans (ix.symm hk) hl
  · intro hsame
    have heq := eq_of_found ha hb (ix.trans (ix.trans hk hsame) (ix.symm hl))
    rw [heq]

theorem Serves.id_ne_zero {id : ℕ} (h : t.Serves found (.returned id)) : id ≠ 0 := by
  obtain ⟨a, ha, -, rfl⟩ := h
  exact t.positive a ha

end Table

/-! ### Without interruption -/

/-- The three statements of a call in a row: there is a row afterwards, and the call returns its
number. -/
theorem Table.uninterrupted {ix : Index α κ} (t : Table ix) {found : α → Bool} (k : κ)
    (hfound : ∀ a, ix.found k a = true → found a = true) (gap₁ gap₂ gap₃ : ℕ) :
    let r₁ := t.step found k gap₁ .count
    let r₂ := r₁.1.step found k gap₂ r₁.2
    let r₃ := r₂.1.step found k gap₃ r₂.2
    let rows := if t.rows.any found then t.rows
      else t.rows ++ [ix.row (t.autoIncrement gap₂) k]
    r₃.1.rows = rows ∧ r₃.2 = .returned (((rows.find? found).map ix.idOf).getD 0) := by
  cases h : t.rows.any found with
  | true => simp [step, count, select, h]
  | false =>
      -- what the queries do not find does not have the key either
      have hkey : t.rows.any (ix.found k) = false := by
        rw [List.any_eq_false] at h ⊢
        intro a ha hk
        exact h a ha (hfound a hk)
      simp [step, count, select, rows_insert, h, hkey]

/-- How many statements a call has left. -/
def Point.left : Point → ℕ
  | .count => 3
  | .insert => 2
  | .select => 1
  | .returned _ => 0

theorem Table.left_step {ix : Index α κ} (t : Table ix) (found : α → Bool) (k : κ) (gap : ℕ)
    (p : Point) : (t.step found k gap p).2.left ≤ p.left - 1 := by
  cases p with
  | count =>
      simp only [Table.step]
      split <;> simp [Point.left]
  | _ => simp [Table.step, Point.left]

end UniqueIndex
