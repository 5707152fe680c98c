import WatchedBack.Model.Pool
import Mathlib

/-! # The counter of the pool

Every connection that a grab drops, and every grab that throws, is counted and never given
back. -/

namespace WatchedBack

section pool

variable {poolSize : ℕ} {ι : Type} [DecidableEq ι] {p q : Pool ι} {o : ι} {answer : GrabAnswer}
  {calls : List (PoolCall ι)}

/-! ### One call -/

theorem safeGrab_eq_some {dead used used' : ℕ} (h : safeGrab poolSize used dead = some used') :
    used' = used + dead + 1 := by
  induction dead generalizing used with
  | zero =>
      unfold safeGrab dbPoolGrab at h
      split at h
      · cases h
      · cases h
        omega
  | succ dead ih =>
      obtain ⟨m, hm, hrest⟩ := Option.bind_eq_some_iff.mp h
      unfold dbPoolGrab at hm
      split at hm
      · cases hm
      · cases hm
        have := ih hrest
        omega

namespace Pool

theorem grab_of_mem (h : o ∈ p.held) : p.grab poolSize o answer = some p := if_pos h

/-- A grab that reaches the pool. -/
theorem grab_of_notMem (ho : o ∉ p.held) (h : p.grab poolSize o answer = some q) :
    q.usedCount = p.usedCount + answer.dead + 1 ∧
      q.held = if answer.throws then p.held else o :: p.held := by
  rw [grab, if_neg ho, Option.map_eq_some_iff] at h
  obtain ⟨used, hused, rfl⟩ := h
  exact ⟨safeGrab_eq_some hused, rfl⟩

theorem release_of_notMem (h : o ∉ p.held) : p.release o = p := if_neg h

theorem release_of_mem (h : o ∈ p.held) :
    p.release o = ⟨p.usedCount - 1, p.held.erase o⟩ := if_pos h

/-! ### A run -/

@[simp] theorem run_nil : p.run poolSize [] = some p := rfl

theorem run_append {calls' : List (PoolCall ι)} :
    p.run poolSize (calls ++ calls') = (p.run poolSize calls).bind fun q => q.run poolSize calls' := by
  rw [run, List.foldlM_append]
  rfl

theorem run_concat {call : PoolCall ι} :
    p.run poolSize (calls ++ [call]) = (p.run poolSize calls).bind fun q => call.exec poolSize q := by
  rw [run_append]
  refine Option.bind_congr fun q _ => ?_
  change (call.exec poolSize q).bind some = call.exec poolSize q
  exact Option.bind_fun_some _

/-- The counter is right, so a grab does not wait while connections are left. -/
def Accounted (poolSize : ℕ) (p : Pool ι) : Prop :=
  p.usedCount = p.held.length ∧ (p.held.length < poolSize → ¬ poolSize < p.usedCount)

omit [DecidableEq ι] in
theorem accounted_iff : p.Accounted poolSize ↔ p.usedCount = p.held.length := by
  refine ⟨fun h => h.1, fun h => ⟨h, fun hlt => ?_⟩⟩
  omega

/-- No connection is dropped, and none fails to open. -/
def GrabClean (answer : GrabAnswer) : Prop := answer.dead = 0 ∧ answer.throws = false

/-- Every grab that reaches the pool in the run is clean. -/
def CleanRun (poolSize : ℕ) (calls : List (PoolCall ι)) : Prop :=
  ∀ pre o answer rest, calls = pre ++ .grab o answer :: rest →
    ∀ p, empty.run poolSize pre = some p → o ∉ p.held → GrabClean answer

/-- The counter is right in every state of the run. -/
def AccountedRun (poolSize : ℕ) (calls : List (PoolCall ι)) : Prop :=
  ∀ pre rest, calls = pre ++ rest → ∀ p, empty.run poolSize pre = some p → p.Accounted poolSize

/-- A call keeps the counter right exactly when it is not an unclean grab. -/
theorem exec_accounted_iff {call : PoolCall ι} (hp : p.usedCount = p.held.length)
    (h : call.exec poolSize p = some q) :
    q.usedCount = q.held.length ↔
      ∀ o answer, call = .grab o answer → o ∉ p.held → GrabClean answer := by
  cases call with
  | grab o answer =>
      by_cases ho : o ∈ p.held
      · rw [PoolCall.exec, grab_of_mem ho] at h
        cases h
        refine iff_of_true hp fun o' answer' heq hnot => ?_
        cases heq
        exact absurd ho hnot
      · obtain ⟨hused, hheld⟩ := grab_of_notMem ho h
        have hclean : (∀ o' answer', PoolCall.grab o answer = .grab o' answer' → o' ∉ p.held →
            GrabClean answer') ↔ GrabClean answer := by
          refine ⟨fun h => h o answer rfl ho, fun h o' answer' heq _ => ?_⟩
          cases heq
          exact h
        rw [hclean, hused, hheld, GrabClean]
        cases answer.throws with
        | true =>
            simp only [if_true, Bool.true_eq_false, and_false, iff_false]
            omega
        | false =>
            simp only [Bool.false_eq_true, if_false, List.length_cons, and_true]
            omega
  | release o =>
      cases h
      refine iff_of_true ?_ fun o' answer' heq _ => by cases heq
      by_cases ho : o ∈ p.held
      · rw [release_of_mem ho]
        simp only [List.length_erase_of_mem ho, hp]
      · rwa [release_of_notMem ho]

/-- The prefix of a complete run is complete. -/
theorem run_prefix {pre rest : List (PoolCall ι)} (h : p.run poolSize (pre ++ rest) = some q) :
    ∃ m, p.run poolSize pre = some m := by
  rw [run_append] at h
  obtain ⟨m, hm, -⟩ := Option.bind_eq_some_iff.mp h
  exact ⟨m, hm⟩

theorem accountedRun_of_cleanRun (hclean : CleanRun poolSize calls) :
    AccountedRun poolSize calls := by
  intro pre
  induction pre using List.reverseRecOn with
  | nil =>
      rintro rest - p hp
      cases hp
      exact accounted_iff.mpr rfl
  | append_singleton pre call ih =>
      intro rest hcalls p hp
      have hcalls' : calls = pre ++ call :: rest := by rw [hcalls, List.append_assoc]; rfl
      rw [run_concat] at hp
      obtain ⟨m, hm, hexec⟩ := Option.bind_eq_some_iff.mp hp
      have hmid := accounted_iff.mp (ih (call :: rest) hcalls' m hm)
      rw [accounted_iff, exec_accounted_iff hmid hexec]
      rintro o answer rfl hnot
      exact hclean pre o answer rest hcalls' m hm hnot

/-- In a complete run the counter is right in every state exactly when every grab that reaches
the pool is clean. -/
theorem pool_accounted_iff (poolSize : ℕ) {calls : List (PoolCall ι)} {p : Pool ι}
    (hrun : empty.run poolSize calls = some p) :
    AccountedRun poolSize calls ↔ CleanRun poolSize calls := by
  refine ⟨fun h => ?_, accountedRun_of_cleanRun⟩
  intro pre o answer rest hcalls m hm hnot
  have hcalls' : calls = (pre ++ [.grab o answer]) ++ rest := by
    rw [hcalls, List.append_assoc]
    rfl
  obtain ⟨q, hq⟩ := run_prefix (hcalls' ▸ hrun)
  have hmid := accounted_iff.mp (h pre _ hcalls m hm)
  have hafter := accounted_iff.mp (h _ rest hcalls' q hq)
  rw [run_concat, hm, Option.bind_some] at hq
  exact (exec_accounted_iff hmid hq).mp hafter o answer rfl hnot

end Pool

/-- A connection taken and given back. -/
def oneRound : List (PoolCall ℕ) := [.grab 1 ⟨0, false⟩, .release 1]

theorem pool_accounted_oneRound : Pool.AccountedRun 1 oneRound := by
  have hrun : Pool.empty.run 1 oneRound = some ⟨0, []⟩ := by decide
  refine (Pool.pool_accounted_iff 1 hrun).mpr fun pre o answer rest h _ _ _ => ?_
  have hmem : PoolCall.grab o answer ∈ oneRound := by
    rw [h]
    simp
  obtain ⟨rfl, rfl⟩ : o = 1 ∧ answer = ⟨0, false⟩ := by simpa [oneRound] using hmem
  exact ⟨rfl, rfl⟩

/-- Two failed attempts to connect to a server that is down. -/
def serverDown : List (PoolCall ℕ) := [.grab 1 ⟨0, true⟩, .grab 1 ⟨0, true⟩]

/-- They fill a pool of one for ever: nothing is held, and every further grab waits. -/
theorem pool_full_of_nothing :
    ¬ Pool.AccountedRun 1 serverDown ∧ Pool.empty.run 1 serverDown = some ⟨2, []⟩ ∧
      Pool.grab 1 ⟨2, []⟩ 1 ⟨0, false⟩ = none := by
  have hrun : Pool.empty.run 1 serverDown = some ⟨2, []⟩ := by decide
  refine ⟨fun h => ?_, hrun, by decide⟩
  have hacc := (h serverDown [] (List.append_nil _).symm ⟨2, []⟩ hrun).1
  exact absurd hacc (by decide)

end pool

end WatchedBack
