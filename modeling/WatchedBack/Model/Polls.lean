import WatchedBack.Model.Collect

/-! Calls of `collect` one after the other by the thread of an agent, which gives its connection
back after each of them. -/

namespace WatchedBack

/-- `std::to_string(trunc(since))`, as a number: what the agent is asked for. -/
def trunc (since : ℚ) : ℤ := if 0 ≤ since then ⌊since⌋ else ⌈since⌉

/-- What a call of `collect` meets. `reply` is none if both requests fail, or the text is no JSON. -/
structure Poll where
  reply : Option Json
  grabbed : Bool
  fp : ℚ
  carried : ℕ → Bool
  answers : ℕ → Answer

/-- The client and the tables after some calls, and from when to when the replies were that have
been handed to the database code. -/
structure PollState where
  agent : AgentClient
  tables : ServiceTables
  db : Database
  processed : List (ℤ × ℚ)

/-- A thread that starts. -/
def PollState.start (ressources : List RessourceClient) (tables : ServiceTables) (db : Database) :
    PollState :=
  ⟨⟨0, ressources⟩, tables, db, []⟩

/-- The loops of `collect` run on a reply if there is a connection for them. -/
def Poll.processes (poll : Poll) : Bool := poll.reply.isSome && poll.grabbed

def PollState.collect (col : Collation) (s : PollState) (poll : Poll) : Except Fault PollState := do
  let res ← WatchedBack.collect col poll.carried poll.answers poll.fp poll.reply poll.grabbed s.agent
    s.tables s.db
  return {
    agent := res.agent
    tables := res.round.tables
    db := res.parsed.db
    processed :=
      if poll.processes then s.processed ++ [(trunc s.agent.since, res.agent.since)]
      else s.processed }

end WatchedBack
