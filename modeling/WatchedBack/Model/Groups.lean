import WatchedBack.Model.Threads

/-! Any number of backends that share `c$agents`: each looks for the agents of the `central_id` of
its configuration, while somebody changes the table and backends are started and end. -/

namespace WatchedBack

/-- What `updateAgents` reads of a row of `c$agents`. -/
structure CentralRow where
  id : ℕ
  centralId : ℤ
  deriving DecidableEq, Repr

/-- `select id from c$agents`, with ` where central_id=…` if the configured id is positive. -/
def CentralRow.selected (domains : ℤ) (row : CentralRow) : Bool :=
  if 0 < domains then row.centralId = domains else true

def selectAgents (domains : ℤ) (rows : List CentralRow) : List ℕ :=
  (rows.filter (CentralRow.selected domains)).map CentralRow.id

/-- The table, and the backends that run. -/
structure Groups where
  rows : List CentralRow
  managers : ℕ → Option AgentManager

/-- `init` is what the `init` of each agent would meet that the round finds new. -/
inductive GroupMove
  | edit (rows : List CentralRow)
  | start (backend : ℕ)
  | stop (backend : ℕ)
  | round (backend : ℕ) (grab : Grabbed) (carriedOut : Bool) (init : ℕ → InitAnswer)

namespace Groups

/-- No backend runs. -/
def idle (rows : List CentralRow) : Groups := ⟨rows, fun _ => none⟩

/-- What the round of a backend meets. -/
def answer (domains : ℤ) (rows : List CentralRow) (grab : Grabbed) (carriedOut : Bool)
    (init : ℕ → InitAnswer) : RoundAnswer where
  grab := grab
  rows := if carriedOut then some ((selectAgents domains rows).map fun id => (id, init id)) else none

/-- `centralId` holds the `central_id` of each backend. A process that ends is no backend any
more. -/
def step (centralId : ℕ → ℤ) (s : Groups) : GroupMove → Groups
  | .edit rows => { s with rows := rows }
  | .start backend => { s with managers := Function.update s.managers backend (some .new) }
  | .stop backend => { s with managers := Function.update s.managers backend none }
  | .round backend grab carriedOut init =>
      { s with managers := Function.update s.managers backend <| (s.managers backend).bind fun m =>
          (m.round (answer (centralId backend) s.rows grab carriedOut init)).toOption }

def run (centralId : ℕ → ℤ) (s : Groups) (moves : List GroupMove) : Groups :=
  moves.foldl (step centralId) s

def Running (s : Groups) (backend : ℕ) : Prop := (s.managers backend).isSome = true

/-- The backend has a client for the agent. -/
def Knows (s : Groups) (backend id : ℕ) : Prop :=
  ∃ m, s.managers backend = some m ∧ (m.agents id).isSome = true

/-- The thread of the client runs. -/
def Polls (s : Groups) (backend id : ℕ) : Prop :=
  ∃ m, s.managers backend = some m ∧ ∃ a, m.agents id = some a ∧ a.running = true

/-- The `init` of the client has failed. -/
def Stuck (s : Groups) (backend id : ℕ) : Prop :=
  ∃ m, s.managers backend = some m ∧ ∃ a, m.agents id = some a ∧ a.ready = false

end Groups

end WatchedBack
