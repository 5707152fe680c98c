import WatchedBack.Model.Threads

/-! The configuration of an `agentClient`: `init`, and the calls that find the client ready or
not. -/

namespace WatchedBack

/-- A row of `c$agents`. Without `poolFreq` the conversion of the column throws, as that of a null
does. -/
structure AgentRow where
  id : ℕ
  host : String
  port : ℕ
  poolFreq : Option ℕ
  useSsl : Option ℤ
  deriving DecidableEq, Repr

def AgentRow.baseurl (row : AgentRow) : String :=
  (if row.host = "localhost" then "127.0.0.1:" else row.host ++ ":") ++ toString row.port

/-- `atoi(row[3].c_str())==1` -/
def AgentRow.usesSsl (row : AgentRow) : Bool := row.useSsl = some 1

/-- What the query for the configuration comes to; `found` holds the rows of `c$agents`. -/
inductive ConfigAnswer
  | failed
  | threw
  | found (rows : List AgentRow)
  deriving DecidableEq, Repr

/-- What is set of the members. The second component of `client` is the `use_ssl` that it was made
with. -/
structure AgentSettings where
  id : ℕ
  ready : Bool
  active : Bool
  baseurl : String
  poolFreq : Option ℕ
  client : Option (String × Bool)
  deriving DecidableEq, Repr

namespace AgentSettings

/-- As the constructor leaves them. -/
def new (id : ℕ) : AgentSettings := ⟨id, false, false, "", none, none⟩

/-- What stands after the handlers of `init`. The `updateApi` at its end changes nothing here. -/
def configured (a : AgentSettings) (useSsl : Bool) : AgentSettings :=
  { a with client := some (a.baseurl, useSsl), ready := true }

/-- `init` from the query on. Its exception is caught, and so is one of a conversion, after the
address has been set. -/
def configure (a : AgentSettings) : ConfigAnswer → Except Crash AgentSettings
  | .failed => .ok a
  | .threw => .ok (a.configured false)
  | .found rows =>
      match rows.find? fun row => row.id = a.id with
      | none => .error .undefined
      | some row =>
          let a := { a with baseurl := row.baseurl }
          match row.poolFreq with
          | none => .ok (a.configured false)
          | some freq => .ok ({ a with poolFreq := some freq }.configured row.usesSsl)

/-- `agentClient::init`. An exception of `grab` leaves it. -/
def init (a : AgentSettings) (grab : Grabbed) (answer : ConfigAnswer) : Except Crash AgentSettings :=
  if a.ready then .ok a
  else match grab with
    | .nothing | .threw => .ok a
    | .connection => a.configure answer

/-- `agentClient::startThread` -/
def startThread (a : AgentSettings) : AgentSettings :=
  if !a.ready || a.active then a else { a with active := true }

end AgentSettings

/-- A call of `init` or `updateApi`, or of `startThread`. -/
inductive AgentCall
  | init (grab : Grabbed) (answer : ConfigAnswer)
  | updateApi (grab : Grabbed) (answer : ConfigAnswer)
  | startThread
  deriving DecidableEq, Repr

/-- `updateApi` of a client that is not ready is its `init`. -/
def AgentCall.exec (a : AgentSettings) : AgentCall → Except Crash AgentSettings
  | .init grab answer => a.init grab answer
  | .updateApi grab answer => if a.ready then .ok a else a.init grab answer
  | .startThread => .ok a.startThread

end WatchedBack
