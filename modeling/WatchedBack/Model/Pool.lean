import WatchedBack.Model.Json

/-! `dbPool`, the `grab` and `release` of `dbTools`, and what the start of the agents does with
them. A call that waits is not carried out: it is `none`. -/

namespace WatchedBack

/-! ### The pool -/

/-- The objects whose `db` is set, and the counter. -/
structure Pool (ι : Type) where
  usedCount : ℕ
  held : List ι
  deriving DecidableEq, Repr

/-- What `safe_grab` meets: connections whose ping fails, each taken with `grab` and dropped with
`remove`, and then one that answers, or an exception out of the last `grab`. -/
structure GrabAnswer where
  dead : ℕ
  throws : Bool
  deriving DecidableEq, Repr

section pool

variable (poolSize : ℕ)

/-- `dbPool::grab`. The counter goes up before the connection is there. -/
def dbPoolGrab (usedCount : ℕ) : Option ℕ :=
  if poolSize < usedCount then none else some (usedCount + 1)

/-- `safe_grab`, which calls the virtual `grab` for each connection. -/
def safeGrab (usedCount : ℕ) : ℕ → Option ℕ
  | 0 => dbPoolGrab poolSize usedCount
  | dead + 1 => (dbPoolGrab poolSize usedCount).bind fun used => safeGrab used dead

namespace Pool

variable {ι : Type} [DecidableEq ι]

def empty : Pool ι := ⟨0, []⟩

/-- `dbTools::grab` -/
def grab (p : Pool ι) (o : ι) (answer : GrabAnswer) : Option (Pool ι) :=
  if o ∈ p.held then some p
  else (safeGrab poolSize p.usedCount answer.dead).map fun used =>
    ⟨used, if answer.throws then p.held else o :: p.held⟩

/-- `dbTools::release` -/
def release (p : Pool ι) (o : ι) : Pool ι :=
  if o ∈ p.held then ⟨p.usedCount - 1, p.held.erase o⟩ else p

end Pool

/-- A call of `dbTools::grab` or `dbTools::release` by an object. -/
inductive PoolCall (ι : Type)
  | grab (o : ι) (answer : GrabAnswer)
  | release (o : ι)

def PoolCall.exec {ι : Type} [DecidableEq ι] (p : Pool ι) : PoolCall ι → Option (Pool ι)
  | .grab o answer => p.grab poolSize o answer
  | .release o => some (p.release o)

/-- Calls one after the other, each of them complete. -/
def Pool.run {ι : Type} [DecidableEq ι] (p : Pool ι) (calls : List (PoolCall ι)) :
    Option (Pool ι) :=
  calls.foldlM (PoolCall.exec poolSize) p

end pool

/-! ### Clients of `dbPool` -/

/-- The `pool_size` that the constructor reads, after `Config::getDB` has set the default. -/
def dbPoolSize (db : Json) : Except Fault ℤ := do
  if ← db.isMember "pool_size" then
    (← db.member "pool_size").asInt
  else
    return 32

/-- `poolSize` is unsigned. -/
def toUnsigned (n : ℤ) : ℕ := (n % 2 ^ 32).toNat

/-- A call of `dbPool::grab` or `dbPool::release` by a client, which may hold any number of
connections. -/
inductive ConnectionCall (ι : Type)
  | grab (o : ι)
  | release (o : ι)
  deriving DecidableEq

/-- A `grab` that finds the pool full leaves it as it is, and is made again. Only what was grabbed
is released. -/
def ConnectionCall.exec {ι : Type} [DecidableEq ι] (poolSize : ℕ) (p : Pool ι) :
    ConnectionCall ι → Pool ι
  | .grab o =>
      match dbPoolGrab poolSize p.usedCount with
      | none => p
      | some used => ⟨used, o :: p.held⟩
  | .release o => p.release o

/-! ### The start of the agents -/

/-- The objects that take connections during `updateAgents`. -/
inductive Holder
  | manager
  | agent (id : ℕ)
  deriving DecidableEq, Repr

/-- What the query for the row of an agent comes to. A result without rows is dereferenced all
the same. -/
inductive RowAnswer
  | failed | threw | empty | row
  deriving DecidableEq, Repr

/-- What the request for the API comes to, and what is made of it. -/
inductive ApiAnswer
  | unreachable | unparsable | processed | threw
  deriving DecidableEq, Repr

structure AgentAnswer where
  grab : GrabAnswer
  row : RowAnswer
  api : ApiAnswer
  deriving DecidableEq, Repr

section start

variable (poolSize : ℕ)

/-- `agentClient::updateApi` of a ready agent that has its connection. True if an exception
leaves it. -/
def agentUpdateApi (p : Pool Holder) (id : ℕ) : ApiAnswer → Pool Holder × Bool
  | .unreachable | .unparsable => (p, false)
  | .threw => (p, true)
  | .processed => (p.release (.agent id), false)

/-- `agentClient::init` of a new agent. None if it waits, or reads a row that is not there. -/
def agentInit (p : Pool Holder) (id : ℕ) (answer : AgentAnswer) : Option (Pool Holder × Bool) :=
  (p.grab poolSize (.agent id) answer.grab).bind fun p =>
    if answer.grab.throws then some (p, true)
    else match answer.row with
      | .failed => some (p, false)
      | .empty => none
      | .threw | .row => some (agentUpdateApi p id answer.api)

/-- The loop over the rows of `c$agents`. An exception ends it. -/
def startAgents (p : Pool Holder) (agents : List ℕ) :
    List (ℕ × AgentAnswer) → Option (Pool Holder × List ℕ)
  | [] => some (p, agents)
  | (id, answer) :: rows =>
      if id ∈ agents then startAgents p agents rows
      else (agentInit poolSize p id answer).bind fun r =>
        if r.2 then some (r.1, agents ++ [id]) else startAgents r.1 (agents ++ [id]) rows

/-- `agentManager::updateAgents`. Without rows the query has failed, or there are none. -/
def updateAgents (p : Pool Holder) (agents : List ℕ) (answer : GrabAnswer)
    (rows : List (ℕ × AgentAnswer)) : Option (Pool Holder × List ℕ) :=
  if answer.throws then none
  else (p.grab poolSize .manager answer).bind fun p =>
    (startAgents poolSize p agents rows).map fun r => (r.1.release .manager, r.2)

end start

end WatchedBack
