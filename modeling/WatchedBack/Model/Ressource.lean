import WatchedBack.Model.Json
import WatchedBack.Model.Database
import WatchedBack.Library.Iterators

/-! The resource client: `init`, `updateDefs` and `parse` of `ressourceClient.cpp`. -/

namespace WatchedBack

/-- `current_events`: the open events under their row ids, visited in the order of the ids. -/
abbrev EventMap := Std.ExtTreeMap ℕ ResEvent compare

/-- The statement that `updateDefs` prepares. A parameter `%k:name` is named after its
column and is kept as the pair of the two. -/
structure InsertTemplate where
  table : String
  idName : String
  ownerId : ℕ
  resId : ℕ
  columns : List String
  values : List (ℕ × String)
  update : List (String × ℕ × String)
  deriving DecidableEq, Repr

/-- The statement as it is sent: each column with the value bound to its parameter. -/
structure SampleInsert where
  table : String
  idName : String
  ownerId : ℕ
  resId : ℕ
  values : List (String × Option ℚ)
  update : List (String × Option ℚ)
  deriving DecidableEq, Repr

/-- `template_defaults[name]` sets the parameter of that name. The names of a
definition are distinct, so each has one parameter. -/
def InsertTemplate.bind (template : InsertTemplate) (defaults : List (String × ℚ)) :
    SampleInsert :=
  { table := template.table
    idName := template.idName
    ownerId := template.ownerId
    resId := template.resId
    values := template.columns.zip (template.values.map fun p => defaults.lookup p.2)
    update := template.update.map fun p => (p.1, defaults.lookup p.2.2) }

/-- `hostId` is the id of the service when `isService` is set. -/
structure RessourceClient where
  isService : Bool
  hostId : ℕ
  resId : ℕ
  baseurl : String
  table : String
  servName : String
  definition : Json
  baseInsert : InsertTemplate
  eventFactory : List ResEvent
  currentEvents : EventMap

namespace RessourceClient

def idName (c : RessourceClient) : String :=
  if c.isService then "serv_id" else "host_id"

def updateDefs (c : RessourceClient) (definition : Json) : RessourceClient :=
  let keys := definition.entries.map Prod.fst
  { c with
    definition := definition
    baseInsert :=
      { table := "d$" ++ c.table
        idName := c.idName
        ownerId := c.hostId
        resId := c.resId
        columns := keys
        values := keys.zipIdx.map fun p => (p.2, p.1)
        update := (keys.zipIdx.filter fun p => p.1 ≠ "timestamp").map fun p => (p.1, p.2, p.1) } }

/-- Rows of `current_events` that `init` selects. -/
def owns (c : RessourceClient) (row : EventRow) : Bool :=
  row.endTime = none ∧ row.ownerId = c.hostId ∧ row.resId = c.resId

/-- Rows of the factory that `init` selects. -/
def applies (c : RessourceClient) (row : FactoryRow) : Bool :=
  (row.ownerId = some c.hostId ∨ row.ownerId = none) ∧
    (row.resId = some c.resId ∨ row.resId = none) ∧
    (row.resType = some c.table ∨ row.resType = none)

/-- The first query of `init`, after `updateDefs`. -/
def loadEvents (c : RessourceClient) (db : Database) : RessourceClient :=
  let c := c.updateDefs c.definition
  { c with
    currentEvents :=
      ((db.resEvents c.isService).rows.filter c.owns).foldl
        (fun m row => m.insert row.id row.event) c.currentEvents }

/-- The second query of `init`. -/
def loadFactory (c : RessourceClient) (db : Database) : RessourceClient :=
  { c with
    eventFactory :=
      c.eventFactory ++ ((db.eventFactory c.isService).filter c.applies).map FactoryRow.event }

/-- Both queries succeed. -/
def init (c : RessourceClient) (db : Database) : RessourceClient :=
  (c.loadEvents db).loadFactory db

end RessourceClient

/-! ### Comparing a line with a rule -/

/-- `line.isMember(property) && ! line[property].isNull()` -/
def Json.carries (line : Json) (property : String) : Except Fault Bool := do
  if ← line.isMember property then
    return !(← line.member property).isNull
  else
    return false

/-- The opening condition. An unknown operator never triggers, and converts nothing. -/
def ResEvent.begins (e : ResEvent) (v : Json) : Except Fault Bool :=
  match e.oper with
  | '<' => return decide ((← v.asDouble) < e.value)
  | '>' => return decide ((← v.asDouble) > e.value)
  | '=' => return decide ((← v.asDouble) = e.value)
  | _ => return false

/-- The closing condition. -/
def ResEvent.ends (e : ResEvent) (v : Json) : Except Fault Bool :=
  match e.oper with
  | '<' => return decide ((← v.asDouble) ≥ e.value)
  | '>' => return decide ((← v.asDouble) ≤ e.value)
  | '=' => return decide ((← v.asDouble) ≠ e.value)
  | _ => return false

/-- The last id that the search loop finds, or 0. -/
def findEvent (m : EventMap) (e : ResEvent) : ℕ :=
  m.toList.foldl (fun found entry => if e = entry.2 then entry.1 else found) 0

/-! ### Parsing lines -/

/-- A call of `sendServRessource` or `sendHostRessource`. -/
structure Alert where
  isService : Bool
  ownerId : ℕ
  resId : ℕ
  event : ResEvent
  current : ℚ
  deriving DecidableEq, Repr

/-- What `parse` reads and changes: the open events of the client, the database, the
event statements sent so far with their answers, the alerts, and the inserts of samples. -/
structure ParseState where
  currentEvents : EventMap
  db : Database
  log : List (EventStmt × Answer)
  alerts : List Alert
  inserts : List SampleInsert

/-- The state before the first line. -/
def ParseState.start (m : EventMap) (db : Database) : ParseState :=
  ⟨m, db, [], [], []⟩

/-- One `myqExec` on the event table; the answer to the `n`-th statement is `answers n`. -/
def ParseState.exec (s : ParseState) (c : RessourceClient) (answers : ℕ → Answer)
    (stmt : EventStmt) : ParseState × ℕ :=
  let answer := answers s.log.length
  let result := (s.db.resEvents c.isService).exec stmt answer
  ({ s with
      db := s.db.setResEvents c.isService result.1
      log := s.log ++ [(stmt, answer)] }, result.2)

/-- A call of the alerters, which is noted. -/
def ParseState.alert (s : ParseState) (call : Alert) : Except Fault ParseState :=
  .ok { s with alerts := s.alerts ++ [call] }

section parse

variable (alert : ParseState → Alert → Except Fault ParseState) (c : RessourceClient)
  (answers : ℕ → Answer) (line : Json)

/-- One rule of the factory. -/
def openEventWith (s : ParseState) (e : ResEvent) : Except Fault ParseState := do
  if ← line.carries e.property then
    let v ← line.member e.property
    if ← e.begins v then
      let found := findEvent s.currentEvents e
      if 0 < found then
        let current ← v.asFloat
        return (s.exec c answers (.setCurrentValue found current)).1
      else
        let ts ← (← line.member "timestamp").asFloat
        let current ← v.asFloat
        let (s', id) := s.exec c answers (.insertEvent c.hostId c.resId ts e current)
        let value ← v.asDouble
        alert { s' with currentEvents := s'.currentEvents.insert id e }
          ⟨c.isService, c.hostId, c.resId, e, value⟩
    else
      return s
  else
    return s

def openEvent : ParseState → ResEvent → Except Fault ParseState :=
  openEventWith ParseState.alert c answers line

/-- One open event of the closing loop. -/
def closeEvent (s : ParseState) (entry : ℕ × ResEvent) : Except Fault ParseState := do
  if ← line.carries entry.2.property then
    let v ← line.member entry.2.property
    if ← entry.2.ends v then
      -- set under the name "name", which the template lacks: parameter 0 takes it
      let ts ← (← line.member "timestamp").asFloat
      let s' := (s.exec c answers (.setEndTime entry.1 ts)).1
      return { s' with currentEvents := s'.currentEvents.erase entry.1 }
    else
      return s
  else
    return s

/-- The closing loop by its iterator, with the ids of the events that it examined. `parseLine`
takes it to go on past an event that it erased, which the iterator does not survive. -/
def closingLoop (s : ParseState) : Except (Iterators.Stop Fault ℕ) (List ℕ × ParseState) :=
  Iterators.loop (fun s => s.currentEvents.toList) (closeEvent c answers line)
    s.currentEvents.toList.length (Iterators.start s.currentEvents.toList) s

/-- The insert of the line's values into `d$`. -/
def storeSample (s : ParseState) : Except Fault ParseState := do
  let defaults ← c.definition.entries.mapM fun (k, _) => do
    return (k, ← (← line.member k).asFloat)
  return { s with inserts := s.inserts ++ [c.baseInsert.bind defaults] }

/-- One line of `parse`. The closing loop visits once every event open when it starts. -/
def parseLineWith (s : ParseState) : Except Fault ParseState := do
  let s ← c.eventFactory.foldlM (openEventWith alert c answers line) s
  let s ← s.currentEvents.toList.foldlM (closeEvent c answers line) s
  storeSample c line s

def parseLine : ParseState → Except Fault ParseState := parseLineWith ParseState.alert c answers line

/-- `ressourceClient::parse`, with the client's open events kept in the state. -/
def parseWith (s : ParseState) (data : Json) : Except Fault ParseState :=
  data.elements.foldlM (fun s line => parseLineWith alert c answers line s) s

/-- The same with calls that are only noted. -/
def parse : ParseState → Json → Except Fault ParseState := parseWith ParseState.alert c answers

end parse

/-- A sequence of lines. -/
def parseLines (c : RessourceClient) (answers : ℕ → Answer) (s : ParseState) (lines : List Json) :
    Except Fault ParseState :=
  lines.foldlM (fun s line => parseLine c answers line s) s

/-! ### A disk, watched by one rule -/

/-- A warning below a quarter of free space. -/
def lowSpace : ResEvent := ⟨3, "pctfree", '<', 25⟩

/-- The client of a disk, watched by the one rule. -/
def diskClient : RessourceClient where
  isService := false
  hostId := 1
  resId := 2
  baseurl := "/system/disk"
  table := "disk_usage"
  servName := ""
  definition := .null
  baseInsert := ⟨"d$disk_usage", "host_id", 1, 2, [], [], []⟩
  eventFactory := [lowSpace]
  currentEvents := ∅

def diskLine (timestamp pctfree : ℤ) : Json :=
  .obj [("timestamp", .int timestamp), ("pctfree", .int pctfree)]

/-- Ids counted from 1. -/
def countedIds (n : ℕ) : Answer := .ok (n + 1)

def emptyDatabase : Database := ⟨⟨[], by simp⟩, ⟨[], by simp⟩, [], []⟩

end WatchedBack
