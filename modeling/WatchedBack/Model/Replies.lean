import WatchedBack.Model.Collect

/-! Replies that `collect` handles one after the other, on common tables. -/

namespace WatchedBack

/-- A reply, and what else its call of `collect` reads. -/
structure Reply where
  data : Json
  fp : ℚ
  answers : ℕ → Answer
  agent : AgentClient
  db : Database

/-- The tables after some replies, and the alerts of all of them. -/
structure ReplyState where
  tables : ServiceTables
  alerts : List ServiceAlert

/-- Every statement is carried out. The clients of a reply have tables of their own. -/
def ReplyState.handle (col : Collation) (s : ReplyState) (reply : Reply) : Except Fault ReplyState := do
  let res ← collect col (fun _ => true) reply.answers reply.fp (some reply.data) true reply.agent
    s.tables reply.db
  return ⟨res.round.tables, s.alerts ++ res.round.alerts⟩

def handleAll (col : Collation) (t : ServiceTables) (replies : List Reply) : Except Fault ReplyState :=
  replies.foldlM (ReplyState.handle col) ⟨t, []⟩

end WatchedBack
