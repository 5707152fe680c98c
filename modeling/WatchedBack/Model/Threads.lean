import WatchedBack.Model.Pool
import Mathlib.Logic.Function.Basic

/-! The flags that decide which threads `agentManager` starts. A call that waits for a connection
for ever ends the sequence of rounds. -/

namespace WatchedBack

/-- What `grab` comes to. -/
inductive Grabbed
  | connection | nothing | threw
  deriving DecidableEq, Repr

/-- What the `init` of a new agent meets. -/
structure InitAnswer where
  grab : Grabbed
  row : RowAnswer
  api : ApiAnswer
  deriving DecidableEq, Repr

/-- What `updateAgents` meets; without rows the query for the agents has failed or thrown. -/
structure RoundAnswer where
  grab : Grabbed
  rows : Option (List (ℕ × InitAnswer))
  deriving DecidableEq, Repr

/-- How the process ends: by an exception that no handler catches, or by reading a row that is
not there. -/
inductive Crash
  | terminated | undefined
  deriving DecidableEq, Repr

/-! ### Clients and the aggregator -/

/-- The flags of an `agentClient`, and whether its thread runs. Only the destructor ends that. -/
structure AgentFlags where
  ready : Bool
  active : Bool
  running : Bool
  deriving DecidableEq, Repr

structure AggregFlags where
  active : Bool
  running : Bool
  deriving DecidableEq, Repr

namespace AgentFlags

/-- As the constructor leaves them. -/
def new : AgentFlags := ⟨false, false, false⟩

/-- `agentClient::init` of a new client, and whether an exception leaves it. A query that throws
is caught, and the client is ready all the same. -/
def init (answer : InitAnswer) : Except Crash (AgentFlags × Bool) :=
  match answer.grab with
  | .threw => .ok (new, true)
  | .nothing => .ok (new, false)
  | .connection =>
      match answer.row with
      | .failed => .ok (new, false)
      | .empty => .error .undefined
      | .threw | .row => .ok ({ new with ready := true }, answer.api = .threw)

/-- `agentClient::startThread` -/
def startThread (a : AgentFlags) : AgentFlags :=
  if !a.ready || a.active then a else { a with active := true, running := true }

end AgentFlags

namespace AggregFlags

/-- `statAggregator::startThread` -/
def startThread (a : AggregFlags) : AggregFlags :=
  if a.active then a else ⟨true, true⟩

/-- A pass of the thread. Without a connection the thread returns. -/
def pass (a : AggregFlags) (grab : Grabbed) : Except Crash AggregFlags :=
  if !a.running then .ok a
  else match grab with
    | .connection => .ok a
    | .nothing => .ok { a with running := false }
    | .threw => .error .terminated

end AggregFlags

/-! ### The manager -/

structure AgentManager where
  agents : ℕ → Option AgentFlags
  aggreg : AggregFlags

namespace AgentManager

def new : AgentManager := ⟨fun _ => none, ⟨false, false⟩⟩

/-- The loop over the rows of `c$agents`. An exception ends it. -/
def startClients (agents : ℕ → Option AgentFlags) :
    List (ℕ × InitAnswer) → Except Crash (ℕ → Option AgentFlags)
  | [] => .ok agents
  | (id, answer) :: rows =>
      if (agents id).isSome then startClients agents rows
      else do
        let (flags, raised) ← AgentFlags.init answer
        let agents := Function.update agents id (some flags)
        if raised then return agents else startClients agents rows

def updateAgents (m : AgentManager) (answer : RoundAnswer) : Except Crash AgentManager :=
  match answer.grab with
  | .threw => .error .terminated
  | .nothing => .ok m
  | .connection =>
      match answer.rows with
      | none => .ok m
      | some rows => do return { m with agents := ← startClients m.agents rows }

def startThreads (m : AgentManager) : AgentManager where
  agents id := (m.agents id).map AgentFlags.startThread
  aggreg := m.aggreg.startThread

/-- One round of the loop of `main`; the first is that of `init`. -/
def round (m : AgentManager) (answer : RoundAnswer) : Except Crash AgentManager := do
  return (← m.updateAgents answer).startThreads

end AgentManager

inductive ManagerEvent
  | round (answer : RoundAnswer)
  | pass (grab : Grabbed)
  deriving DecidableEq, Repr

def AgentManager.step (m : AgentManager) : ManagerEvent → Except Crash AgentManager
  | .round answer => m.round answer
  | .pass grab => do return { m with aggreg := ← m.aggreg.pass grab }

end WatchedBack
