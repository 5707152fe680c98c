import WatchedBack.Library.Upserts
import WatchedBack.Model.Database

/-! The rounds of `agentManager::updateAgents` of all backends on one database, as far as they are
about `b$history`. The clock is read once in a round, and its text in both statements has at most
four decimals. -/

namespace WatchedBack

/-! ### The table -/

/-- A row of `b$history`. -/
structure BackHistoryRow where
  backId : ℕ
  timestamp : Column
  failed : ℕ
  ok : ℕ
  deriving DecidableEq, Repr

/-- The columns of `backHistory_u`. -/
def BackHistoryRow.key (row : BackHistoryRow) : ℕ × Column := (row.backId, row.timestamp)

/-- A row that says that the backend is there. -/
def BackHistoryRow.beat (backId : ℕ) (ts : Column) : BackHistoryRow := ⟨backId, ts, 0, 1⟩

abbrev BackendHistory := Upserts.Table BackHistoryRow.key

/-- Milliseconds, in ten-thousandths. -/
def ms (n : ℤ) : ℤ := n * 10 ^ 4

namespace BackendHistory

/-- `insert into b$history … on duplicate key update failed=0, ok=1` -/
def heartbeat (t : BackendHistory) (backId : ℕ) (ts : Column) : BackendHistory :=
  t.upsert (.beat backId ts)

/-- `max(timestamp)` of a group -/
def latest (t : BackendHistory) (backId : ℕ) : Option ℤ :=
  ((t.rows.filter fun row => row.backId = backId).map fun row => row.timestamp.ticks).max?

/-- The select of the second insert. -/
def failedRows (t : BackendHistory) (ts : Column) : List BackHistoryRow :=
  (t.rows.map BackHistoryRow.backId).dedup.filterMap fun backId =>
    match t.latest backId with
    | none => none
    | some x =>
        if x < ts.ticks - ms 600000 then some ⟨backId, ⟨ts.ticks - ms 300000⟩, 1, 0⟩ else none

/-- `insert into b$history select …` -/
def mark (t : BackendHistory) (ts : Column) : BackendHistory :=
  (t.insertAll (t.failedRows ts)).getD t

end BackendHistory

/-! ### Rounds -/

/-- Where a backend is in its round, with the clock value that it has read. -/
inductive RoundPoint
  | idle
  | heartbeat (ts : Column)
  | mark (ts : Column)
  deriving DecidableEq, Repr

/-- The table, the rounds of the backends, and the rows in the order in which they were written. -/
structure Backends where
  history : BackendHistory
  rounds : ℕ → RoundPoint
  written : List BackHistoryRow

/-- A backend reads the clock, or sends its next statement, which is carried out or fails. -/
inductive BackendMove
  | clock (backId : ℕ) (ts : Column)
  | statement (backId : ℕ) (ok : Bool)
  deriving DecidableEq, Repr

namespace Backends

def start (history : BackendHistory) : Backends := ⟨history, fun _ => .idle, []⟩

def setRound (s : Backends) (backId : ℕ) (p : RoundPoint) : Backends :=
  { s with rounds := Function.update s.rounds backId p }

def move (s : Backends) : BackendMove → Backends
  | .clock backId ts =>
      match s.rounds backId with
      | .idle => s.setRound backId (.heartbeat ts)
      | _ => s
  | .statement backId ok =>
      match s.rounds backId with
      | .idle => s
      | .heartbeat ts =>
          if ok then
            { s with
              history := s.history.heartbeat backId ts
              written := s.written ++ [BackHistoryRow.beat backId ts] }.setRound backId (.mark ts)
          else s.setRound backId (.mark ts)
      | .mark ts =>
          if ok then
            { s with
              history := s.history.mark ts
              written := s.written ++ s.history.failedRows ts }.setRound backId .idle
          else s.setRound backId .idle

end Backends

/-! ### The schedule of `main` -/

/-- A sleep of `pool_freq` seconds; one that is not positive returns at once. -/
def sleepFor (poolFreq : ℤ) : ℤ := ms (1000 * max poolFreq 0)

/-- When the rounds of a backend are. The first is part of `init`, which then sleeps for two
seconds. -/
def roundTime (start poolFreq : ℤ) : ℕ → ℤ
  | 0 => start
  | 1 => start + ms 2000 + sleepFor poolFreq
  | k + 2 => roundTime start poolFreq (k + 1) + sleepFor poolFreq

/-- A round that takes no time. -/
def BackendHistory.round (t : BackendHistory) (backId : ℕ) (ts : Column) : BackendHistory :=
  (t.heartbeat backId ts).mark ts

/-- The rounds of a list, each given by its backend and its number. -/
def BackendHistory.run (time : ℕ → ℕ → ℤ) (t : BackendHistory) (rounds : List (ℕ × ℕ)) :
    BackendHistory :=
  rounds.foldl (fun t p => t.round p.1 ⟨time p.1 p.2⟩) t

end WatchedBack
