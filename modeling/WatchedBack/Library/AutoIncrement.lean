import WatchedBack.Library.UniqueIndex

/-! Tables with a unique index whose numbers come from a counter that never goes back: rows may be
deleted, and no number is given twice. -/

namespace UniqueIndex

universe u v

variable {α : Type u} {κ : Type v}

/-- The next number is above all that were given. -/
structure Numbered (ix : Index α κ) extends Table ix where
  next : ℕ
  positiveNext : 0 < next
  below : ∀ a ∈ rows, ix.idOf a < next

namespace Numbered

variable {ix : Index α κ} {t t' t'' : Numbered ix} {k : κ} {a b : α} {n : ℕ} {keep : α → Bool}

def empty (ix : Index α κ) : Numbered ix := ⟨.empty ix, 1, Nat.one_pos, by simp [Table.empty]⟩

def numbers (t : Numbered ix) : List ℕ := t.rows.map ix.idOf

theorem lt_next (h : n ∈ t.numbers) : n < t.next := by
  obtain ⟨a, ha, rfl⟩ := List.mem_map.mp h
  exact t.below a ha

/-! ### Statements -/

/-- An insert of a key without a row. -/
def insertNew (t : Numbered ix) (k : κ) (h : t.rows.any (ix.found k) = false) : Numbered ix where
  rows := t.rows ++ [ix.row t.next k]
  unique := by
    apply List.pairwise_append.mpr
    refine ⟨t.unique, List.pairwise_singleton _ _, fun a ha b hb => ?_⟩
    rw [List.mem_singleton.mp hb, ix.keyOf_row]
    exact Bool.eq_false_of_not_eq_true (List.any_eq_false.mp h a ha)
  ids := by
    rw [List.map_append, List.nodup_append]
    refine ⟨t.ids, List.nodup_singleton _, fun n hn m hm => ?_⟩
    rw [List.mem_singleton.mp hm, ix.idOf_row]
    exact (lt_next hn).ne
  positive := by
    intro a ha
    rcases List.mem_append.mp ha with hold | hnew
    · exact t.positive a hold
    · rw [List.mem_singleton.mp hnew, ix.idOf_row]
      exact t.positiveNext.ne'
  next := t.next + 1
  positiveNext := Nat.succ_pos _
  below := by
    intro a ha
    rcases List.mem_append.mp ha with hold | hnew
    · exact Nat.lt_succ_of_lt (t.below a hold)
    · rw [List.mem_singleton.mp hnew, ix.idOf_row]
      exact Nat.lt_succ_self _

/-- The key is inserted if it has no row. -/
def ensure (t : Numbered ix) (k : κ) : Numbered ix :=
  if h : t.rows.any (ix.found k) = false then t.insertNew k h else t

/-- The number of the row of a key, or 0. -/
def number (t : Numbered ix) (k : κ) : ℕ := t.select (ix.found k)

/-- The rows that do not meet the condition are deleted. -/
def restrict (t : Numbered ix) (keep : α → Bool) : Numbered ix where
  rows := t.rows.filter keep
  unique := t.unique.filter keep
  ids := (List.filter_sublist.map _).nodup t.ids
  positive a ha := t.positive a (List.mem_filter.mp ha).1
  next := t.next
  positiveNext := t.positiveNext
  below a ha := t.below a (List.mem_filter.mp ha).1

theorem rows_ensure (t : Numbered ix) (k : κ) :
    (t.ensure k).rows = if t.rows.any (ix.found k) = false then t.rows ++ [ix.row t.next k]
      else t.rows := by
  unfold ensure
  split <;> rfl

theorem subset_ensure (t : Numbered ix) (k : κ) : t.rows ⊆ (t.ensure k).rows := by
  rw [rows_ensure]
  split
  · exact List.subset_append_left _ _
  · exact List.Subset.refl _

theorem exists_found_ensure (t : Numbered ix) (k : κ) :
    ∃ a ∈ (t.ensure k).rows, ix.found k a = true := by
  rw [rows_ensure]
  split
  · apply Exists.intro (ix.row t.next k)
    apply And.intro (List.mem_append_right _ (List.mem_singleton_self _))
    rw [Index.found, ix.keyOf_row]
    exact ix.refl k
  · next h => exact List.any_eq_true.mp (Bool.eq_true_of_not_eq_false h)

/-- After the call the key has a row, whose number is returned. -/
theorem ensure_spec (t : Numbered ix) (k : κ) :
    ∃ a ∈ (t.ensure k).rows, ix.found k a = true ∧ ix.idOf a = (t.ensure k).number k :=
  Table.select_found (exists_found_ensure t k)

theorem numbers_subset (h : t.rows ⊆ t'.rows) : t.numbers ⊆ t'.numbers := List.map_subset _ h

/-! ### Later tables -/

/-- The counter has not gone back, and no old number has a new row. -/
structure Later (t t' : Numbered ix) : Prop where
  next : t.next ≤ t'.next
  old : ∀ a ∈ t'.rows, ix.idOf a < t.next → a ∈ t.rows

namespace Later

@[refl] theorem refl (t : Numbered ix) : t.Later t := ⟨le_rfl, fun _ h _ => h⟩

@[trans] theorem trans (h : t.Later t') (h' : t'.Later t'') : t.Later t'' := by
  refine ⟨h.next.trans h'.next, fun a ha hlt => ?_⟩
  exact h.old a (h'.old a ha (hlt.trans_le h.next)) hlt

theorem ensure (t : Numbered ix) (k : κ) : t.Later (t.ensure k) := by
  unfold Numbered.ensure
  split
  · refine ⟨Nat.le_succ _, fun a ha hlt => ?_⟩
    rcases List.mem_append.mp ha with hold | hnew
    · exact hold
    · rw [List.mem_singleton.mp hnew, ix.idOf_row] at hlt
      exact absurd hlt (lt_irrefl _)
  · exact refl t

theorem restrict (t : Numbered ix) (keep : α → Bool) : t.Later (t.restrict keep) :=
  ⟨le_rfl, fun _ ha _ => (List.mem_filter.mp ha).1⟩

/-- A number whose row is gone does not come back. -/
theorem gone (h : t.Later t') (hlt : n < t.next) (hn : n ∉ t.numbers) : n ∉ t'.numbers := by
  intro hn'
  obtain ⟨a, ha, rfl⟩ := List.mem_map.mp hn'
  exact hn (List.mem_map_of_mem (h.old a ha hlt))

end Later

end Numbered

end UniqueIndex
