import WatchedBack.Library.Runs
import WatchedBack.Model.Counters

/-! # Requests that are counted

Every call of `getJSON` counts up one counter, and `updateApi` moves the counters to the history: a
call is lost where a counter runs over, or the move fails, or it meets a row. -/

namespace WatchedBack

open Runs

/-! ### Requests -/

namespace HttpClient

/-- All requests of the counters. -/
def count (c : HttpClient) : ℕ := c.ok + c.failed + c.parse

/-- The counter that a call counts up. -/
def counter (c : HttpClient) (first retry : HttpReply) : ℕ :=
  match answer first retry with
  | .failed => c.failed
  | .unparsable => c.parse
  | .json _ => c.ok

theorem increment_le (n : ℕ) : increment n ≤ n + 1 := Nat.mod_le _ _

theorem increment_eq_iff (n : ℕ) : increment n = n + 1 ↔ n + 1 < 2 ^ 32 := by
  unfold increment
  constructor
  · intro h
    rw [← h]
    exact Nat.mod_lt _ (by norm_num)
  · exact Nat.mod_eq_of_lt

variable (c : HttpClient) (first retry : HttpReply)

theorem count_getJSON :
    (c.getJSON first retry).2.count + c.counter first retry =
      c.count + increment (c.counter first retry) := by
  unfold getJSON counter count
  split <;> simp only [*] <;> omega

theorem count_getJSON_le : (c.getJSON first retry).2.count ≤ c.count + 1 := by
  have hcount := c.count_getJSON first retry
  have hle := increment_le (c.counter first retry)
  omega

theorem count_getJSON_eq_iff :
    (c.getJSON first retry).2.count = c.count + 1 ↔ c.counter first retry + 1 < 2 ^ 32 := by
  rw [← increment_eq_iff]
  have hcount := c.count_getJSON first retry
  omega

end HttpClient

/-! ### Rows -/

@[simp] theorem count_counterRow (fp : ℚ) (ok missing parse : ℕ) :
    (counterRow fp ok missing parse).count = ok + missing + parse := by
  unfold counterRow
  split <;> simp only [AgtHistoryRow.count] <;> omega

@[simp] theorem timestamp_counterRow (fp : ℚ) (ok missing parse : ℕ) :
    (counterRow fp ok missing parse).timestamp = Column.ofRat fp := by
  unfold counterRow
  split <;> rfl

namespace AgentCounters

/-- All requests that are still known. -/
def known (s : AgentCounters) : ℕ :=
  s.history.total AgtHistoryRow.count + s.client.elim 0 HttpClient.count

/-- What a call must find for no request to be lost. -/
def Accounts (s : AgentCounters) : CounterCall → Prop
  | .updateApi u => ∀ c, s.client = some c → c.count ≠ 0 →
      u.grabbed = true ∧ u.carried = true ∧
        ∀ row ∈ s.history.rows, row.timestamp = Column.ofRat u.fp → row.count = 0
  | .collect first retry => ∀ c, s.client = some c → c.counter first retry + 1 < 2 ^ 32

/-! ### Calls -/

variable {s : AgentCounters} {c : HttpClient} {u : UpdateMeets} {first retry : HttpReply}

/-- A move to the history keeps all exactly if it is carried out and meets nothing. -/
theorem total_updateCounter (history : AgentHistory) (grabbed carried : Bool) (fp : ℚ)
    (ok missing parse : ℕ) :
    (updateCounter history grabbed carried fp ok missing parse).total AgtHistoryRow.count ≤
        history.total AgtHistoryRow.count + (ok + missing + parse) ∧
      (ok + missing + parse ≠ 0 →
        ((updateCounter history grabbed carried fp ok missing parse).total AgtHistoryRow.count =
            history.total AgtHistoryRow.count + (ok + missing + parse) ↔
          grabbed = true ∧ carried = true ∧
            ∀ row ∈ history.rows, row.timestamp = Column.ofRat fp → row.count = 0)) := by
  have htotal := history.total_upsert AgtHistoryRow.count (counterRow fp ok missing parse)
  have hweight := history.weight_eq_zero_iff AgtHistoryRow.count (k := Column.ofRat fp)
  rw [count_counterRow, timestamp_counterRow] at htotal
  unfold updateCounter
  cases grabbed with
  | false =>
      simp only [Bool.false_eq_true, if_false, false_and, iff_false]
      omega
  | true =>
      cases carried with
      | false =>
          simp only [Bool.false_eq_true, if_true, if_false, false_and, and_false, iff_false]
          omega
      | true =>
          simp only [if_true, true_and]
          rw [← hweight]
          omega

/-- What `updateApi` of an agent that is ready does to the requests that are known. -/
theorem known_refresh (s : AgentCounters) (c : HttpClient) (u : UpdateMeets)
    (hclient : s.client.elim 0 HttpClient.count = c.count) :
    (s.refresh c u).known ≤ s.known + 1 ∧
      ((s.refresh c u).known = s.known + 1 ↔ (c.count ≠ 0 →
        u.grabbed = true ∧ u.carried = true ∧
          ∀ row ∈ s.history.rows, row.timestamp = Column.ofRat u.fp → row.count = 0)) := by
  let history := if c.ok ≠ 0 ∨ c.failed ≠ 0 ∨ c.parse ≠ 0 then
      updateCounter s.history u.grabbed u.carried u.fp c.ok c.failed c.parse
    else s.history
  -- the counters are zero, so that none runs over
  have hcount : (HttpClient.new.getJSON u.first u.retry).2.count = 1 := by
    have hzero : HttpClient.new.counter u.first u.retry = 0 := by
      unfold HttpClient.counter
      split <;> rfl
    have hone := (HttpClient.new.count_getJSON_eq_iff u.first u.retry).mpr (by rw [hzero]; norm_num)
    rw [hone]
    rfl
  have hknown : (s.refresh c u).known = history.total AgtHistoryRow.count + 1 := by
    rw [← hcount]
    rfl
  have hbefore : s.known = s.history.total AgtHistoryRow.count + c.count := by
    rw [← hclient]
    rfl
  rw [hknown, hbefore]
  by_cases hzero : c.count = 0
  · have hsame : history = s.history := by
      unfold HttpClient.count at hzero
      apply if_neg
      omega
    rw [hsame, hzero]
    simp
  · have hmove : history = updateCounter s.history u.grabbed u.carried u.fp c.ok c.failed c.parse := by
      unfold HttpClient.count at hzero
      apply if_pos
      omega
    obtain ⟨hle, heq⟩ := total_updateCounter s.history u.grabbed u.carried u.fp c.ok c.failed c.parse
    have hiff := heq hzero
    have hsum : c.count = c.ok + c.failed + c.parse := rfl
    rw [hmove, forall_prop_of_true hzero, ← hiff, hsum]
    omega

/-- What a call does to the requests that are known and to the number of calls. -/
theorem known_call (s : AgentCounters) (x : CounterCall) :
    (s.call x).known + s.calls ≤ s.known + (s.call x).calls ∧
      ((s.call x).known + s.calls = s.known + (s.call x).calls ↔ s.Accounts x) := by
  unfold call Accounts
  cases x with
  | updateApi u =>
      dsimp only
      unfold updateApi
      cases hclient : s.client with
      | none =>
          dsimp only
          split
          · have hcalls : (s.refresh .new u).calls = s.calls + 1 := rfl
            obtain ⟨hle, heq⟩ := known_refresh s .new u (by rw [hclient]; rfl)
            have hknown : (s.refresh .new u).known = s.known + 1 :=
              heq.mpr fun hne => absurd rfl hne
            rw [hcalls, hknown]
            constructor
            · omega
            · apply iff_of_true
              · omega
              · intro c hc
                cases hc
          · simp
      | some c =>
          have hcalls : (s.refresh c u).calls = s.calls + 1 := rfl
          obtain ⟨hle, heq⟩ := known_refresh s c u (by rw [hclient]; rfl)
          simp only [Option.some.injEq, forall_eq']
          rw [hcalls, ← heq]
          omega
  | collect first retry =>
      dsimp only
      unfold collect
      cases hclient : s.client with
      | none => simp
      | some c =>
          have hknown : (s.getJSON c first retry).known =
              s.history.total AgtHistoryRow.count + (c.getJSON first retry).2.count := rfl
          have hbefore : s.known = s.history.total AgtHistoryRow.count + c.count := by
            unfold known
            rw [hclient]
            rfl
          have hcalls : (s.getJSON c first retry).calls = s.calls + 1 := rfl
          have hle := c.count_getJSON_le first retry
          simp only [Option.some.injEq, forall_eq']
          rw [hknown, hbefore, hcalls, ← c.count_getJSON_eq_iff]
          omega

/-! ### Runs -/

/-- The calls of `getJSON` are the requests in the history and in the counters, exactly if every
call has found what it must. -/
theorem requests_accounted_iff (history : AgentHistory) (xs : List CounterCall) :
    (xs.foldl call (.start history)).known =
        history.total AgtHistoryRow.count + (xs.foldl call (.start history)).calls ↔
      EachStep call Accounts (.start history) xs := by
  let base := history.total AgtHistoryRow.count
  apply foldl_iff_eachStep (P := fun s => s.known = base + s.calls)
    (fun s : AgentCounters => s.known ≤ base + s.calls)
  · intro s x hs
    have hle := (known_call s x).1
    omega
  · intro s x _ hs
    rw [← (known_call s x).2]
    omega
  · intro s x hs h
    have hle := (known_call s x).1
    omega
  · exact le_rfl
  · rfl

/-- The first update makes the client and reads the description; at the second the pool is busy. -/
def busyPool : List CounterCall :=
  [.updateApi ⟨true, true, true, true, 1000, .json .null, .failed⟩,
    .updateApi ⟨true, true, false, true, 2000, .json .null, .failed⟩]

/-- Two requests, of which the history and the counters have one. -/
theorem busy_pool_loses_request :
    (busyPool.foldl call (.start .empty)).known ≠
      (Upserts.Table.empty : AgentHistory).total AgtHistoryRow.count +
        (busyPool.foldl call (.start .empty)).calls := by decide

end AgentCounters

end WatchedBack
