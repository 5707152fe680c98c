import WatchedBack.Library.Defaults
import WatchedBack.Model.Pool

/-! The configuration file from the start of the program to its loop: the sections that are filled
up with defaults, the values that are read on the way, and what is saved. -/

namespace WatchedBack

open Defaults

/-- Assignment to a member. -/
def Json.set (v : Json) (key : String) (value : Json) : Except Fault Json :=
  match v with
  | .null => .ok (.obj [(key, value)])
  | .obj members => .ok (.obj (put key value members))
  | _ => .error .logicError

/-- The paths that are set when the program is built. -/
structure Paths where
  sslKey : String
  sslCert : String
  sslVrf : String
  logFile : String
  dllAlert : String
  luaAlert : String
  deriving DecidableEq, Repr

/-- What reading the file comes to. -/
inductive ConfigFile
  | absent
  | unparsable
  | value (v : Json)

/-! ### `Config` -/

/-- `if (! data[sec].isMember(key)) data[sec][key] = value` -/
def setDefault (sec key : String) (data value : Json) : Except Fault Json := do
  let cfg ← data.member sec
  if ← cfg.isMember key then return data else data.set sec (← cfg.set key value)

def setDefaults (sec : String) (defaults : List (String × Json)) (data : Json) :
    Except Fault Json :=
  defaults.foldlM (fun data d => setDefault sec d.1 data d.2) data

/-- `if (! data.isMember(sec)) data[sec] = obj_value` -/
def addSection (sec : String) (data : Json) : Except Fault Json := do
  if ← data.isMember sec then return data else data.set sec (.obj [])

def backendDefaults (p : Paths) : List (String × Json) :=
  [("SSL_cert", .str p.sslCert), ("SSL_key", .str p.sslKey), ("SSL_verify", .str p.sslVrf),
    ("SSL_verify_name", .bool true), ("central_id", .int (-1)), ("pool_freq", .int (5 * 60))]

def dbDefaults : List (String × Json) :=
  [("connection_string", .str "localhost:3306"), ("database_name", .str "watcheddb"),
    ("login", .str "watched"), ("password", .str "watched"), ("pool_size", .int 32)]

/-- The constructor of `Config`. -/
def Config.make (p : Paths) (file : ConfigFile) : Except Fault Json := do
  let data ← match file with
    | .absent => pure .null
    | .unparsable => .error .logicError
    | .value v => pure v
  setDefaults "backend" (backendDefaults p) data

def Config.getDB (data : Json) : Except Fault Json := do
  setDefaults "db" dbDefaults (← addSection "db" data)

def Config.getLog (data : Json) : Except Fault Json := addSection "log" data

def Config.getAlerter (data : Json) : Except Fault Json := addSection "alerters" data

def Config.getAggregate (data : Json) : Except Fault Json := addSection "aggregate" data

/-- The value of a setting. -/
def readSetting (sec key : String) (data : Json) : Except Fault Json := do
  (← data.member sec).member key

/-! ### `log` -/

def levels : List String := ["NONE", "ERROR", "WARN", "NOTICE", "INFO", "DEBUG", "ALL"]

def upper (s : String) : String := String.ofList (s.toList.map Char.toUpper)

/-- The loop over `levels`; 3 if nothing is found. -/
def levelOf (name : String) : ℕ :=
  levels.zipIdx.foldl (fun level l => if l.1 = upper name then l.2 else level) 3

def levelName (level : ℕ) : String := levels.getD level ""

def logDefaults (p : Paths) : List (String × Json) :=
  [("file", .str p.logFile), ("level", .str "NOTICE")]

/-- The constructor of `log`, which writes the level as it understands it. -/
def Log.make (p : Paths) (data : Json) : Except Fault (ℕ × Json) := do
  let data ← setDefaults "log" (logDefaults p) data
  let level := levelOf (← (← readSetting "log" "level" data).asString)
  let cfg ← data.member "log"
  return (level, ← data.set "log" (← cfg.set "level" (.str (levelName level))))

/-- A message is written to the file of the configuration, or, if that cannot be opened, to the
terminal. -/
def Log.write (level : ℕ) (data : Json) (messageLevel : ℕ) : Except Fault Unit :=
  if level < messageLevel then return ()
  else do
    let _ ← (← readSetting "log" "file" data).asString
    return ()

/-! ### The reads on the way -/

def connectionTexts : List String := ["database_name", "connection_string", "login", "password"]

/-- `dbPool::create` -/
def dbPoolCreate (data : Json) : Except Fault Unit :=
  connectionTexts.forM fun key => do
    let _ ← (← readSetting "db" key data).asCString
    return ()

def certificateTexts : List String := ["SSL_key", "SSL_cert", "SSL_verify"]

/-- The constructor of `HttpClient`. -/
def HttpClient.make (data : Json) : Except Fault Unit :=
  certificateTexts.forM fun key => do
    let _ ← (← readSetting "backend" key data).asString
    return ()

/-- The functions of `log`. -/
inductive LogLevel
  | error | warning | notice | info | debug
  deriving DecidableEq, Repr

def LogLevel.number : LogLevel → ℕ
  | .error => 1
  | .warning => 2
  | .notice => 3
  | .info => 4
  | .debug => 5

/-- The connections of the pool. -/
structure Connections where
  used : ℕ
  free : ℕ
  deriving DecidableEq, Repr

/-- What the start does that may read the configuration, or end it. -/
inductive StartStep
  | message (level : LogLevel)
  /-- `dbPool::grab`, when so many of the free connections are not too old. -/
  | grab (kept : ℕ)
  | release
  /-- An exception that does not come of the configuration. -/
  | raise (badQuery : Bool)
  deriving DecidableEq, Repr

/-- A step of the loop over the agents. -/
inductive ClientStep
  | step (x : StartStep)
  | client
  deriving DecidableEq, Repr

/-- What keeps the start from its next step: an exception, or a connection that it waits for. There
is no other thread yet that could release one. -/
inductive Ending
  | threw (badQuery : Bool) (s : Connections)
  | waiting
  deriving DecidableEq, Repr

def orThrow {α : Type} (s : Connections) : Except Fault α → Except Ending α
  | .ok a => .ok a
  | .error _ => .error (.threw false s)

/-- The log, the pool and the configuration, as the objects have them that are made from it. -/
structure Launch where
  level : ℕ
  poolSize : ℕ
  data : Json

/-- A connection is made if none is free. -/
def StartStep.exec (c : Launch) (s : Connections) : StartStep → Except Ending Connections
  | .message level => do
      orThrow s (Log.write c.level c.data level.number)
      return s
  | .grab kept =>
      match dbPoolGrab c.poolSize s.used with
      | none => .error .waiting
      | some used =>
          if 0 < min s.free kept then return ⟨used, min s.free kept - 1⟩
          else do
            orThrow ⟨used, 0⟩ (dbPoolCreate c.data)
            return ⟨used, 0⟩
  | .release => if 0 < s.used then return ⟨s.used - 1, s.free + 1⟩ else return s
  | .raise badQuery => .error (.threw badQuery s)

def takeSteps (c : Launch) (s : Connections) (steps : List StartStep) : Except Ending Connections :=
  steps.foldlM (StartStep.exec c) s

def ClientStep.exec (c : Launch) (s : Connections) : ClientStep → Except Ending Connections
  | .step x => x.exec c s
  | .client => do
      orThrow s (HttpClient.make c.data)
      return s

/-- `myqCatch` -/
def catchMessages (badQuery : Bool) : List StartStep :=
  [.message .error, .message .notice] ++ if badQuery then [.message .info] else []

/-- The loop over the agents: `myqCatch` stands around all of it. -/
def initClients (c : Launch) (s : Connections) (agents : List ClientStep) :
    Except Ending Connections :=
  match agents.foldlM (ClientStep.exec c) s with
  | .error (.threw badQuery s) => takeSteps c s (catchMessages badQuery)
  | result => result

/-! ### `main` -/

/-- What the start meets besides the file. -/
structure StartAnswers where
  /-- The C++ alerters, and the Lua alerters, of `alerterManager`. -/
  cpp : List StartStep
  lua : List StartStep
  /-- The first `grab` of `getBackend`, and what follows it there. -/
  kept : ℕ
  backend : List StartStep
  /-- `updateAgents` up to the end of its loop, and what follows it. -/
  agents : List ClientStep
  closing : List StartStep
  deriving DecidableEq, Repr

def alerterDefaults (p : Paths) : List (String × Json) :=
  [("alerter_cpp", .str p.dllAlert), ("alerter_lua", .str p.luaAlert)]

/-- The constructor of `alerterManager`. -/
def AlerterManager.make (p : Paths) (answers : StartAnswers) (level poolSize : ℕ) (data : Json) :
    Except Ending (Launch × Connections) := do
  let data ← orThrow ⟨0, 0⟩ (setDefaults "alerters" (alerterDefaults p) data)
  let c : Launch := ⟨level, poolSize, data⟩
  let _ ← orThrow ⟨0, 0⟩ (readSetting "alerters" "alerter_cpp" data >>= Json.asString)
  let s ← takeSteps c ⟨0, 0⟩ answers.cpp
  let _ ← orThrow s (readSetting "alerters" "alerter_lua" data >>= Json.asString)
  let s ← takeSteps c s answers.lua
  return (c, s)

/-- `main` up to the log. -/
def openLog (p : Paths) (file : ConfigFile) : Except Fault (ℤ × ℕ × Json) := do
  let data ← Config.getDB (← Config.make p file)
  let poolSize ← (← readSetting "db" "pool_size" data).asInt
  let (level, data) ← Log.make p (← Config.getLog data)
  return (poolSize, level, ← Config.getAlerter data)

/-- `main` up to the first `save`. -/
def configure (p : Paths) (answers : StartAnswers) (file : ConfigFile) :
    Except Ending (Launch × Connections) := do
  let (poolSize, level, data) ← orThrow ⟨0, 0⟩ (openLog p file)
  AlerterManager.make p answers level (toUnsigned poolSize) data

/-- `getAggregate` and `agentManager::init`. The connection of `getBackend` is kept, so the `grab` of
`updateAgents` takes none. -/
def initAgents (answers : StartAnswers) (c : Launch) (s : Connections) : Except Ending Json := do
  let data ← orThrow s (Config.getAggregate c.data)
  let c : Launch := { c with data := data }
  let s ← StartStep.exec c s (.grab answers.kept)
  let s ← takeSteps c s answers.backend
  let _ ← orThrow s (readSetting "backend" "central_id" data >>= Json.asInt)
  let s ← initClients c s answers.agents
  let _ ← takeSteps c s (answers.closing ++ [.release, .message .notice])
  return data

/-- What the start leaves: the file, and the configuration of the backend if it runs. -/
structure Started where
  file : ConfigFile
  running : Option Json

/-- `main` up to its loop. -/
def start (p : Paths) (answers : StartAnswers) (file : ConfigFile) : Started :=
  match configure p answers file with
  | .error _ => ⟨file, none⟩
  | .ok (c, s) =>
      match initAgents answers c s with
      | .error _ => ⟨.value c.data, none⟩
      | .ok data => ⟨.value data, some data⟩

end WatchedBack
