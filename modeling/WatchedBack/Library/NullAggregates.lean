import Mathlib

/-! The aggregate functions of SQL on columns with nulls: nulls are ignored, and a group
without values has a null result. Aggregates of a partition merge into those of the whole. -/

namespace NullAggregates

universe u

variable {K : Type u}

/-! ### Reducing with an operation -/

/-- Reduces the values that are not null; null if there are none. -/
def reduce (op : K → K → K) (xs : List (Option K)) : Option K :=
  xs.foldr (Option.merge op) none

variable (op : K → K → K)

@[simp] theorem reduce_nil : reduce op [] = none := rfl

@[simp] theorem reduce_cons (x : Option K) (xs : List (Option K)) :
    reduce op (x :: xs) = Option.merge op x (reduce op xs) := rfl

theorem merge_assoc [Std.Associative op] (x y z : Option K) :
    Option.merge op (Option.merge op x y) z = Option.merge op x (Option.merge op y z) :=
  Std.Associative.assoc x y z

theorem reduce_append [Std.Associative op] (xs ys : List (Option K)) :
    reduce op (xs ++ ys) = Option.merge op (reduce op xs) (reduce op ys) := by
  induction xs with
  | nil => simp
  | cons x xs ih => rw [List.cons_append, reduce_cons, ih, reduce_cons, merge_assoc]

/-- Reducing the results of the groups reduces everything. -/
theorem reduce_map_reduce [Std.Associative op] (groups : List (List (Option K))) :
    reduce op (groups.map (reduce op)) = reduce op groups.flatten := by
  induction groups with
  | nil => rfl
  | cons g groups ih => simp [reduce_append, ih]

theorem reduce_perm [Std.Associative op] [Std.Commutative op] {xs ys : List (Option K)}
    (h : xs.Perm ys) : reduce op xs = reduce op ys := by
  induction h with
  | nil => rfl
  | cons x _ ih => rw [reduce_cons, reduce_cons, ih]
  | swap x y xs =>
      have hcomm : Option.merge op y x = Option.merge op x y := Std.Commutative.comm y x
      simp only [reduce_cons, ← merge_assoc, hcomm]
  | trans _ _ ih₁ ih₂ => exact ih₁.trans ih₂

/-! ### Counting -/

/-- The number of values that are not null. -/
def count (xs : List (Option K)) : ℕ := xs.countP Option.isSome

theorem sum_map_count (groups : List (List (Option K))) :
    (groups.map count).sum = count groups.flatten :=
  (List.countP_flatten).symm

theorem count_perm {xs ys : List (Option K)} (h : xs.Perm ys) : count xs = count ys :=
  h.countP_eq _

@[simp] theorem count_append (xs ys : List (Option K)) : count (xs ++ ys) = count xs + count ys :=
  List.countP_append

@[simp] theorem count_singleton (x : K) : count [some x] = 1 := rfl

/-- Nulls do not count. -/
theorem count_map_some_filterMap {α : Type*} (f : α → Option K) (xs : List α) :
    count ((xs.filterMap f).map some) = count (xs.map f) := by
  induction xs with
  | nil => rfl
  | cons x xs ih => cases h : f x <;> simpa [count, h] using ih

/-- Nulls are ignored. -/
theorem reduce_map_some_filterMap {α : Type*} (f : α → Option K) (xs : List α) :
    reduce op ((xs.filterMap f).map some) = reduce op (xs.map f) := by
  induction xs with
  | nil => rfl
  | cons x xs ih => cases h : f x <;> simp [h, ih]

/-- One value of a list determines the total, and the other way round. -/
theorem reduce_add_replace_iff [AddCommGroup K] {xs ys : List (Option K)} {v w : K} :
    reduce (· + ·) (xs ++ some v :: ys) = reduce (· + ·) (xs ++ some w :: ys) ↔ v = w := by
  constructor
  · intro h
    simp only [reduce_append, reduce_cons] at h
    cases hx : reduce (· + ·) xs <;> cases hy : reduce (· + ·) ys <;> simpa [hx, hy] using h
  · rintro rfl
    rfl

/-! ### Bounds -/

/-- The total of a group lies between its extremes, each taken as often as there are values. -/
theorem reduce_bounds [Field K] [LinearOrder K] [IsStrictOrderedRing K]
    (xs : List (Option K)) :
    (count xs = 0 ∧ reduce Min.min xs = none ∧ reduce Max.max xs = none ∧
      reduce (· + ·) xs = none) ∨
    ∃ lo hi total, reduce Min.min xs = some lo ∧ reduce Max.max xs = some hi ∧
      reduce (· + ·) xs = some total ∧ 0 < count xs ∧ count xs * lo ≤ total ∧
      total ≤ count xs * hi := by
  induction xs with
  | nil => exact Or.inl ⟨rfl, rfl, rfl, rfl⟩
  | cons x xs ih =>
      cases x with
      | none => simpa [count] using ih
      | some v =>
          right
          have hcount : count (some v :: xs) = count xs + 1 := by simp [count]
          rcases ih with ⟨hn, hmin, hmax, hsum⟩ | ⟨lo, hi, total, hmin, hmax, hsum, hn, hlo, hhi⟩
          · refine ⟨v, v, v, by simp [hmin], by simp [hmax], by simp [hsum], by omega, ?_, ?_⟩ <;>
              simp [hcount, hn]
          · refine ⟨min v lo, max v hi, v + total, by simp [hmin], by simp [hmax], by simp [hsum],
              by omega, ?_, ?_⟩
            · have hmul : (count xs : K) * min v lo ≤ count xs * lo := by
                gcongr
                exact min_le_right v lo
              rw [hcount]
              push_cast
              linarith [min_le_left v lo]
            · have hmul : (count xs : K) * hi ≤ count xs * max v hi := by
                gcongr
                exact le_max_right v hi
              rw [hcount]
              push_cast
              linarith [le_max_left v hi]

/-! ### The five aggregates of a column -/

/-- Average, minimum, maximum, sum and count of a column over a group. -/
structure Aggregate (K : Type u) where
  avg : Option K
  min : Option K
  max : Option K
  sum : Option K
  cnt : ℕ
  deriving DecidableEq, Repr

variable [Field K] [LinearOrder K]

/-- A total divided by a count; null where the division is by zero. -/
def ratio (total : Option K) (n : ℕ) : Option K :=
  if n = 0 then none else total.map (· / n)

namespace Aggregate

/-- The aggregates of the values of a group. -/
def ofValues (xs : List (Option K)) : Aggregate K where
  avg := ratio (reduce (· + ·) xs) (count xs)
  min := reduce Min.min xs
  max := reduce Max.max xs
  sum := reduce (· + ·) xs
  cnt := count xs

/-- The aggregates of a group of aggregates; the average is that of the total. -/
def merge (parts : List (Aggregate K)) : Aggregate K where
  avg := ratio (reduce (· + ·) (parts.map sum)) (parts.map cnt).sum
  min := reduce Min.min (parts.map min)
  max := reduce Max.max (parts.map max)
  sum := reduce (· + ·) (parts.map sum)
  cnt := (parts.map cnt).sum

/-- Merging the aggregates of groups aggregates all their values: no average of averages. -/
theorem merge_map_ofValues (groups : List (List (Option K))) :
    merge (groups.map ofValues) = ofValues groups.flatten := by
  have hsum : reduce (· + ·) ((groups.map ofValues).map sum) = reduce (· + ·) groups.flatten := by
    rw [← reduce_map_reduce, List.map_map]
    rfl
  have hmin : reduce Min.min ((groups.map ofValues).map min) = reduce Min.min groups.flatten := by
    rw [← reduce_map_reduce, List.map_map]
    rfl
  have hmax : reduce Max.max ((groups.map ofValues).map max) = reduce Max.max groups.flatten := by
    rw [← reduce_map_reduce, List.map_map]
    rfl
  have hcnt : ((groups.map ofValues).map cnt).sum = count groups.flatten := by
    rw [← sum_map_count, List.map_map]
    rfl
  rw [merge, ofValues, hsum, hmin, hmax, hcnt]

/-- The order of the values in a group does not matter. -/
theorem ofValues_perm {xs ys : List (Option K)} (h : xs.Perm ys) : ofValues xs = ofValues ys := by
  rw [ofValues, ofValues, reduce_perm _ h, reduce_perm _ h, reduce_perm _ h, count_perm h]

/-- The aggregates are those of the values that are there. -/
theorem ofValues_map_some_filterMap {α : Type*} (f : α → Option K) (xs : List α) :
    ofValues ((xs.filterMap f).map some) = ofValues (xs.map f) := by
  simp only [ofValues, reduce_map_some_filterMap, count_map_some_filterMap]

/-- What is added to a group does the same to its aggregates, whatever values they are of. -/
theorem ofValues_append_congr {xs ys : List (Option K)} (h : ofValues xs = ofValues ys)
    (zs : List (Option K)) : ofValues (xs ++ zs) = ofValues (ys ++ zs) := by
  have hmin : reduce Min.min xs = reduce Min.min ys := congrArg Aggregate.min h
  have hmax : reduce Max.max xs = reduce Max.max ys := congrArg Aggregate.max h
  have hsum : reduce (· + ·) xs = reduce (· + ·) ys := congrArg Aggregate.sum h
  have hcnt : count xs = count ys := congrArg Aggregate.cnt h
  simp only [ofValues, reduce_append, count_append, hmin, hmax, hsum, hcnt]

/-- A null adds nothing to a group. -/
@[simp] theorem ofValues_append_none (xs : List (Option K)) : ofValues (xs ++ [none]) = ofValues xs := by
  simp [ofValues, reduce_append, count]

theorem count_eq_of_ofValues {xs ys : List (Option K)} (h : ofValues xs = ofValues ys) :
    count xs = count ys :=
  congrArg Aggregate.cnt h

/-- A value of a group can be told from its aggregates. -/
theorem ofValues_replace_iff {xs ys : List (Option K)} {v w : K} :
    ofValues (xs ++ some v :: ys) = ofValues (xs ++ some w :: ys) ↔ v = w := by
  constructor
  · intro h
    exact reduce_add_replace_iff.mp (congrArg Aggregate.sum h)
  · rintro rfl
    rfl

/-! ### What the aggregates of a group say about each other -/

/-- There is nothing to aggregate, or the average is the total by the count and lies between the
extremes. -/
inductive Coherent (a : Aggregate K) : Prop
  | empty (h : a = ⟨none, none, none, none, 0⟩)
  | values (lo hi total : K) (n : ℕ) (hn : 0 < n)
      (h : a = ⟨some (total / n), some lo, some hi, some total, n⟩)
      (hlo : lo ≤ total / n) (hhi : total / n ≤ hi)

section ordered

variable [IsStrictOrderedRing K]

theorem coherent_ofValues (xs : List (Option K)) : Coherent (ofValues xs) := by
  rcases reduce_bounds xs with ⟨hn, hmin, hmax, hsum⟩ | ⟨lo, hi, total, hmin, hmax, hsum, hn, hlo, hhi⟩
  · refine .empty ?_
    simp [ofValues, ratio, hn, hmin, hmax, hsum]
  · have hpos : (0 : K) < count xs := by exact_mod_cast hn
    refine .values lo hi total (count xs) hn ?_ ?_ ?_
    · simp [ofValues, ratio, hn.ne', hmin, hmax, hsum]
    · rw [le_div_iff₀ hpos]
      linarith
    · rw [div_le_iff₀ hpos]
      linarith

end ordered

end Aggregate

end NullAggregates
