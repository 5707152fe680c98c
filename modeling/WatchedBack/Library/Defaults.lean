import Mathlib

/-! Settings that are filled up with defaults: association lists in the order of their keys, and the
values that they give. -/

namespace Defaults

universe u v

variable {κ : Type u} {ν : Type v} [DecidableEq κ]

/-! ### Association lists -/

section lists

variable [BEq κ] [LawfulBEq κ]

theorem lookup_cons (k l : κ) (w : ν) (xs : List (κ × ν)) :
    ((l, w) :: xs).lookup k = if k = l then some w else xs.lookup k := by
  by_cases h : k = l
  · simp [List.lookup, h]
  · simp [List.lookup, h, beq_false_of_ne h]

/-- The value of a key that is there. -/
def overwrite (k : κ) (v : ν) : List (κ × ν) → List (κ × ν)
  | [] => []
  | (l, w) :: xs => if k = l then (k, v) :: xs else (l, w) :: overwrite k v xs

theorem lookup_overwrite (k l : κ) (v : ν) (xs : List (κ × ν)) :
    (overwrite k v xs).lookup l = if l = k then (xs.lookup k).map fun _ => v else xs.lookup l := by
  induction xs with
  | nil => simp [overwrite]
  | cons x xs ih =>
      obtain ⟨m, w⟩ := x
      rw [overwrite, lookup_cons, lookup_cons]
      by_cases hkm : k = m
      · subst hkm
        rw [if_pos rfl, lookup_cons]
        split <;> simp
      · rw [if_neg hkm, if_neg hkm, lookup_cons, ih]
        by_cases hlk : l = k
        · rw [if_pos hlk, if_neg (hlk ▸ hkm), if_pos hlk]
        · rw [if_neg hlk, if_neg hlk]

variable [LT κ] [DecidableLT κ]

/-- A new key goes before the first that is greater. -/
def insertKey (k : κ) (v : ν) : List (κ × ν) → List (κ × ν)
  | [] => [(k, v)]
  | (l, w) :: xs => if k < l then (k, v) :: (l, w) :: xs else (l, w) :: insertKey k v xs

def put (k : κ) (v : ν) (xs : List (κ × ν)) : List (κ × ν) :=
  if (xs.lookup k).isSome then overwrite k v xs else insertKey k v xs

theorem lookup_insertKey {k : κ} {xs : List (κ × ν)} (h : xs.lookup k = none) (l : κ) (v : ν) :
    (insertKey k v xs).lookup l = if l = k then some v else xs.lookup l := by
  induction xs with
  | nil => rw [insertKey, lookup_cons]
  | cons x xs ih =>
      obtain ⟨m, w⟩ := x
      rw [lookup_cons] at h
      split at h
      · cases h
      · next hkm =>
        rw [insertKey]
        split
        · rw [lookup_cons]
        · rw [lookup_cons, lookup_cons, ih h]
          by_cases hlk : l = k
          · rw [if_pos hlk, if_pos hlk, if_neg (hlk ▸ hkm)]
          · rw [if_neg hlk, if_neg hlk]

theorem lookup_put (k l : κ) (v : ν) (xs : List (κ × ν)) :
    (put k v xs).lookup l = if l = k then some v else xs.lookup l := by
  unfold put
  split
  · next h =>
    obtain ⟨w, hw⟩ := Option.isSome_iff_exists.mp h
    rw [lookup_overwrite, hw]
    rfl
  · next h => exact lookup_insertKey (Option.not_isSome_iff_eq_none.mp h) l v

/-- A value that is put again changes nothing. -/
theorem put_self {k : κ} {v : ν} {xs : List (κ × ν)} (h : xs.lookup k = some v) :
    put k v xs = xs := by
  rw [put, h, Option.isSome_some, if_pos rfl]
  induction xs with
  | nil => rfl
  | cons x xs ih =>
      obtain ⟨l, w⟩ := x
      rw [lookup_cons] at h
      rw [overwrite]
      split at h
      · next hkl =>
        cases h
        rw [if_pos hkl, hkl]
      · next hkl => rw [if_neg hkl, ih h]

end lists

/-! ### Settings -/

/-- A setting without a value gets the default. -/
def fill (f : κ → Option ν) (d : κ × ν) : κ → Option ν :=
  fun k => (f k).or (if k = d.1 then some d.2 else none)

variable {f : κ → Option ν} {d : κ × ν} {ds es : List (κ × ν)} {k : κ}

theorem fill_of_isSome (h : (f d.1).isSome = true) : fill f d = f := by
  funext k
  rw [fill]
  by_cases hk : k = d.1
  · obtain ⟨v, hv⟩ := Option.isSome_iff_exists.mp h
    rw [hk, hv]
    rfl
  · rw [if_neg hk, Option.or_none]

section values

variable [BEq κ] [LawfulBEq κ]

/-- The first default of a setting counts. -/
theorem foldl_fill (f : κ → Option ν) (ds : List (κ × ν)) (k : κ) :
    ds.foldl fill f k = (f k).or (ds.lookup k) := by
  induction ds generalizing f with
  | nil => simp
  | cons d ds ih =>
      rw [List.foldl_cons, ih, lookup_cons, fill]
      cases f k with
      | some v => simp
      | none =>
          by_cases h : k = d.1
          · simp [h]
          · simp [h]

end values

end Defaults
