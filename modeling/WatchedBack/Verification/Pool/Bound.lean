import WatchedBack.Library.Fallible
import WatchedBack.Library.Runs
import WatchedBack.Verification.Pool.Accounting

/-! # The bound of the pool

A call waits while more than `pool_size` connections are in use, so the one that finds exactly
`pool_size` of them in use takes one more. -/

namespace WatchedBack

open Runs

theorem asInteger_range {lo hi : ℤ} (hlo : lo ≤ 0) (hhi : 1 ≤ hi) {v : Json} {n : ℤ}
    (h : v.asInteger lo hi = .ok n) : lo ≤ n ∧ n ≤ hi := by
  cases v with
  | null =>
      cases h
      omega
  | bool b =>
      cases h
      cases b with
      | false => simp; omega
      | true => simp; omega
  | int m =>
      simp only [Json.asInteger] at h
      split at h
      · next hrange =>
        cases h
        exact hrange
      · cases h
  | real value text =>
      simp only [Json.asInteger] at h
      split at h
      · next hrange =>
        cases h
        split
        · exact ⟨Int.le_floor.mpr hrange.1, Int.cast_le.mp (le_trans (Int.floor_le value) hrange.2)⟩
        · exact ⟨Int.cast_le.mp (le_trans hrange.1 (Int.le_ceil value)), Int.ceil_le.mpr hrange.2⟩
      · cases h
  | str s => cases h
  | arr elements => cases h
  | obj members => cases h

theorem dbPoolSize_range {db : Json} {size : ℤ} (h : dbPoolSize db = .ok size) :
    -2 ^ 31 ≤ size ∧ size ≤ 2 ^ 31 - 1 := by
  obtain ⟨known, -, h⟩ := Fallible.bind_eq_ok.mp h
  cases known with
  | false =>
      cases h
      norm_num
  | true =>
      obtain ⟨v, -, h⟩ := Fallible.bind_eq_ok.mp h
      exact asInteger_range (by norm_num) (by norm_num) h

theorem toUnsigned_of_nonneg {n : ℤ} (hn : 0 ≤ n) (hlt : n ≤ 2 ^ 31 - 1) :
    (toUnsigned n : ℤ) = n := by
  rw [toUnsigned, Int.toNat_of_nonneg (Int.emod_nonneg n (by norm_num))]
  exact Int.emod_eq_of_lt hn (by omega)

section pool

variable {ι : Type} [DecidableEq ι] {poolSize : ℕ} {p : Pool ι}

/-- The connections in use are counted. -/
def Pool.Counted (p : Pool ι) : Prop := p.usedCount = p.held.length

theorem exec_grab (o : ι) : (ConnectionCall.grab o).exec poolSize p =
    if poolSize < p.usedCount then p else ⟨p.usedCount + 1, o :: p.held⟩ := by
  unfold ConnectionCall.exec dbPoolGrab
  by_cases hfull : poolSize < p.usedCount
  · simp only [hfull, if_true]
  · simp only [hfull, if_false]

theorem exec_release (o : ι) : (ConnectionCall.release o).exec poolSize p = p.release o := rfl

theorem counted_exec (h : p.Counted) (call : ConnectionCall ι) : (call.exec poolSize p).Counted := by
  unfold Pool.Counted at h ⊢
  cases call with
  | grab o =>
      rw [exec_grab]
      split
      · exact h
      · rw [List.length_cons, h]
  | release o =>
      rw [exec_release]
      by_cases ho : o ∈ p.held
      · rw [Pool.release_of_mem ho, List.length_erase_of_mem ho, h]
      · rw [Pool.release_of_notMem ho]
        exact h

/-- A call keeps the bound exactly if it is no `grab` of a pool that is full. -/
theorem exec_bounded_iff (h : p.Counted) (hp : p.held.length ≤ poolSize) (call : ConnectionCall ι) :
    (call.exec poolSize p).held.length ≤ poolSize ↔
      ∀ o, call = .grab o → p.held.length ≠ poolSize := by
  unfold Pool.Counted at h
  cases call with
  | grab o =>
      rw [exec_grab, if_neg (by omega)]
      simp only [List.length_cons, ConnectionCall.grab.injEq, forall_eq']
      omega
  | release o =>
      have hle : (p.release o).held.length ≤ p.held.length := by
        by_cases ho : o ∈ p.held
        · rw [Pool.release_of_mem ho, List.length_erase_of_mem ho]
          omega
        · rw [Pool.release_of_notMem ho]
      rw [exec_release]
      apply iff_of_true
      · exact le_trans hle hp
      · intro o' heq
        cases heq

/-- However many clients call in whatever order: no more than `pool_size` connections are ever in
use if and only if `pool_size` is not negative and no `grab` is made while exactly `pool_size` of
them are. -/
theorem connections_bounded_iff {db : Json} {size : ℤ} (hsize : dbPoolSize db = .ok size)
    (calls : List (ConnectionCall ι)) :
    Always (ConnectionCall.exec (toUnsigned size)) (fun p => (p.held.length : ℤ) ≤ size)
        (.empty : Pool ι) calls ↔
      0 ≤ size ∧ EachStep (ConnectionCall.exec (toUnsigned size))
        (fun p call => ∀ o, call = .grab o → (p.held.length : ℤ) ≠ size) (.empty : Pool ι) calls := by
  by_cases hneg : size < 0
  · apply iff_of_false
    · intro h
      have hempty := h [] calls rfl
      simp only [List.foldl_nil, Pool.empty, List.length_nil] at hempty
      omega
    · rintro ⟨h, -⟩
      omega
  · have hcast := toUnsigned_of_nonneg (not_lt.mp hneg) (dbPoolSize_range hsize).2
    rw [and_iff_right (not_lt.mp hneg)]
    generalize toUnsigned size = poolSize at hcast ⊢
    subst hcast
    apply always_iff_eachStep_of Pool.Counted (fun _ _ => True)
    · intro p call h _
      exact counted_exec h call
    · intro p call h _ hp
      rw [Nat.cast_le] at hp ⊢
      rw [exec_bounded_iff h hp]
      simp only [ne_eq, Nat.cast_inj]
    · rfl
    · exact Nat.cast_le.mpr (Nat.zero_le poolSize)
    · intro before call after _
      trivial

end pool

/-- A pool of two connections. -/
def smallPool : Json := .obj [("pool_size", .int 2)]

theorem connections_bounded_small :
    Always (ConnectionCall.exec 2) (fun p => (p.held.length : ℤ) ≤ 2) (.empty : Pool ℕ)
      [.grab 1, .grab 2, .release 1, .grab 3] := by
  have hsize : dbPoolSize smallPool = .ok 2 := rfl
  apply (connections_bounded_iff hsize [.grab 1, .grab 2, .release 1, .grab 3]).mpr
  simp only [eachStep_cons]
  refine ⟨by norm_num, ?_, ?_, ?_, ?_, eachStep_nil⟩
  · intro o _
    decide
  · intro o _
    decide
  · intro o heq
    cases heq
  · intro o _
    decide

/-- The third client gets a connection, too. -/
theorem connections_exceed_small :
    dbPoolSize smallPool = .ok 2 ∧
      ([.grab 1, .grab 2, .grab 3].foldl (ConnectionCall.exec 2) (.empty : Pool ℕ)).held = [3, 2, 1] ∧
      ¬ Always (ConnectionCall.exec 2) (fun p => (p.held.length : ℤ) ≤ 2) (.empty : Pool ℕ)
        [.grab 1, .grab 2, .grab 3] := by
  have hheld : ([.grab 1, .grab 2, .grab 3].foldl (ConnectionCall.exec 2) (.empty : Pool ℕ)).held =
      [3, 2, 1] := by
    decide
  refine ⟨rfl, hheld, fun hbounded => ?_⟩
  have hthree := hbounded [.grab 1, .grab 2, .grab 3] [] rfl
  dsimp only at hthree
  rw [hheld] at hthree
  norm_num at hthree

end WatchedBack
