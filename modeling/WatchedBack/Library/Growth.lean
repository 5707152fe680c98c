import Mathlib

/-! Tables to which rows are only added, under keys that are not taken. -/

namespace Growth

universe u v

variable {α : Type u} {κ : Type v} {keyOf : α → κ} {xs ys zs : List α} {p : α → Bool} {a : α}

/-- The rows are kept, and those that are added have keys of their own. -/
def Grows (keyOf : α → κ) (xs ys : List α) : Prop :=
  ∃ zs, ys = xs ++ zs ∧ ∀ z ∈ zs, keyOf z ∉ xs.map keyOf

namespace Grows

@[refl] theorem refl (xs : List α) : Grows keyOf xs xs := ⟨[], by simp, by simp⟩

theorem append (h : keyOf a ∉ xs.map keyOf) : Grows keyOf xs (xs ++ [a]) :=
  ⟨[a], rfl, fun z hz => by rwa [List.mem_singleton.mp hz]⟩

theorem mem (h : Grows keyOf xs ys) (ha : a ∈ xs) : a ∈ ys := by
  obtain ⟨zs, rfl, -⟩ := h
  exact List.mem_append_left zs ha

theorem map_mem {k : κ} (h : Grows keyOf xs ys) (hk : k ∈ xs.map keyOf) : k ∈ ys.map keyOf := by
  obtain ⟨x, hx, rfl⟩ := List.mem_map.mp hk
  exact List.mem_map_of_mem (h.mem hx)

@[trans] theorem trans (h : Grows keyOf xs ys) (h' : Grows keyOf ys zs) : Grows keyOf xs zs := by
  obtain ⟨us, rfl, hus⟩ := h
  obtain ⟨vs, rfl, hvs⟩ := h'
  refine ⟨us ++ vs, by simp, fun z hz => ?_⟩
  rcases List.mem_append.mp hz with hz | hz
  · exact hus z hz
  · intro hmem
    apply hvs z hz
    rw [List.map_append]
    exact List.mem_append_left _ hmem

/-- The first row that is found stays the first. -/
theorem find?_eq_some (h : Grows keyOf xs ys) (hfind : xs.find? p = some a) :
    ys.find? p = some a := by
  obtain ⟨zs, rfl, -⟩ := h
  rw [List.find?_append, hfind]
  rfl

/-- A row that is found under an old key was found before. -/
theorem find?_of_key_mem (h : Grows keyOf xs ys) (hfind : ys.find? p = some a)
    (hkey : keyOf a ∈ xs.map keyOf) : xs.find? p = some a := by
  obtain ⟨zs, rfl, hzs⟩ := h
  cases hold : xs.find? p with
  | some b =>
      rw [List.find?_append, hold] at hfind
      exact hfind
  | none =>
      rw [List.find?_append, hold] at hfind
      exact absurd hkey (hzs a (List.mem_of_find?_eq_some hfind))

end Grows

end Growth
