import WatchedBack.Library.Upserts
import WatchedBack.Model.Database
import WatchedBack.Model.Json

/-! The requests of an agent's `HttpClient`, its three counters, and `agt$history`, where
`updateApi` keeps them. What `updateApi` and `collect` do with a reply is left out. -/

namespace WatchedBack

/-! ### Requests -/

/-- What one `request` comes to. -/
inductive HttpReply
  | failed
  | unparsable
  | json (data : Json)
  deriving Repr

/-- The counters, of 32 bits. -/
structure HttpClient where
  ok : ℕ
  failed : ℕ
  parse : ℕ
  deriving DecidableEq, Repr

namespace HttpClient

def new : HttpClient := ⟨0, 0, 0⟩

/-- `++` -/
def increment (n : ℕ) : ℕ := (n + 1) % 2 ^ 32

/-- A request that fails is repeated once. -/
def answer (first retry : HttpReply) : HttpReply :=
  match first with
  | .failed => retry
  | reply => reply

def getJSON (c : HttpClient) (first retry : HttpReply) : Option Json × HttpClient :=
  match answer first retry with
  | .failed => (none, { c with failed := increment c.failed })
  | .unparsable => (none, { c with parse := increment c.parse })
  | .json data => (some data, { c with ok := increment c.ok })

/-- The counters as `ok`, `failed` and `parse`, which are zero then. -/
def resetCount (c : HttpClient) : (ℕ × ℕ × ℕ) × HttpClient :=
  ((c.ok, c.failed, c.parse), { c with ok := 0, failed := 0, parse := 0 })

end HttpClient

/-! ### The history of an agent -/

/-- A row of `agt$history` of the agent. -/
structure AgtHistoryRow where
  timestamp : Column
  failed : ℕ
  missing : ℕ
  parse : ℕ
  ok : ℕ
  deriving DecidableEq, Repr

def AgtHistoryRow.count (row : AgtHistoryRow) : ℕ := row.failed + row.missing + row.parse + row.ok

/-- The rows of the agent: `agtHistory_u` leaves one for each timestamp. -/
abbrev AgentHistory := Upserts.Table AgtHistoryRow.timestamp

/-- The row of `updateCounter`. -/
def counterRow (fp : ℚ) (ok missing parse : ℕ) : AgtHistoryRow :=
  if (missing ≠ 0 ∨ parse ≠ 0) ∧ ok = 0 then ⟨Column.ofRat fp, missing, 0, parse, ok⟩
  else ⟨Column.ofRat fp, 0, missing, parse, ok⟩

/-- `grabbed` says whether there is a connection, `carried` whether the insert is carried out. -/
def updateCounter (history : AgentHistory) (grabbed carried : Bool) (fp : ℚ) (ok missing parse : ℕ) :
    AgentHistory :=
  if grabbed then
    if carried then history.upsert (counterRow fp ok missing parse) else history
  else history

/-! ### The agent -/

/-- The agent, its history and the number of its calls of `getJSON`. There is no client until `init`
has succeeded. -/
structure AgentCounters where
  client : Option HttpClient
  history : AgentHistory
  calls : ℕ

/-- What `updateApi` meets: whether `init` gets a connection and an answer, the same for
`updateCounter`, the clock, and the two requests. -/
structure UpdateMeets where
  initGrabbed : Bool
  initQueried : Bool
  grabbed : Bool
  carried : Bool
  fp : ℚ
  first : HttpReply
  retry : HttpReply

namespace AgentCounters

def start (history : AgentHistory) : AgentCounters := ⟨none, history, 0⟩

/-- A call of `getJSON`. -/
def getJSON (s : AgentCounters) (c : HttpClient) (first retry : HttpReply) : AgentCounters :=
  { s with
    client := some (c.getJSON first retry).2
    calls := s.calls + 1 }

/-- `updateApi` of an agent that is ready. -/
def refresh (s : AgentCounters) (c : HttpClient) (u : UpdateMeets) : AgentCounters :=
  let ((ok, missing, parse), c) := c.resetCount
  let history :=
    if ok ≠ 0 ∨ missing ≠ 0 ∨ parse ≠ 0 then
      updateCounter s.history u.grabbed u.carried u.fp ok missing parse
    else s.history
  { s with history := history }.getJSON c u.first u.retry

/-- `init` calls `updateApi` again when it has made the client. -/
def updateApi (s : AgentCounters) (u : UpdateMeets) : AgentCounters :=
  match s.client with
  | none => if u.initGrabbed && u.initQueried then s.refresh .new u else s
  | some c => s.refresh c u

/-- The thread that calls `collect` is only started for an agent that is ready. -/
def collect (s : AgentCounters) (first retry : HttpReply) : AgentCounters :=
  match s.client with
  | none => s
  | some c => s.getJSON c first retry

end AgentCounters

/-- A call for the agent. -/
inductive CounterCall
  | updateApi (u : UpdateMeets)
  | collect (first retry : HttpReply)

def AgentCounters.call (s : AgentCounters) : CounterCall → AgentCounters
  | .updateApi u => s.updateApi u
  | .collect first retry => s.collect first retry

end WatchedBack
