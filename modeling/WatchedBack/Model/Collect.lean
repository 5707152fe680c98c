import WatchedBack.Model.Alerter

/-! `agentClient::collect`: one reply of an agent, from its services to the samples of the
resource clients. Names are looked up and inserted without an error; of the other statements,
`carried n` says whether the `n`-th one is carried out. -/

namespace WatchedBack

/-- What the loops over the services read and change. -/
structure Round where
  tables : ServiceTables
  sent : ℕ
  alerts : List ServiceAlert

/-- One `myqExec`. -/
def Round.exec (r : Round) (carried : ℕ → Bool) (stmt : ServiceTables → ServiceTables) : Round :=
  { r with
    tables := if carried r.sent then stmt r.tables else r.tables
    sent := r.sent + 1 }

/-- A call of the alerters, which is noted. -/
def Round.alert (r : Round) (call : ServiceAlert) : Except Fault Round :=
  .ok { r with alerts := r.alerts ++ [call] }

section services

variable (alert : Round → ServiceAlert → Except Fault Round) (col : Collation) (carried : ℕ → Bool)

/-! ### Log entries -/

/-- The text `t` of the new entries, and `maxlvl`. -/
structure LogScan where
  round : Round
  text : String
  maxlvl : ℕ

def collectLog (servId : ℕ) (s : LogScan) (entry : Json) : Except Fault LogScan := do
  let source ← (← entry.member "source").asString
  let lineNo ← (← entry.member "line_no").asUInt
  let date ← (← entry.member "date_mark").asString
  if s.round.tables.haveLogEvent col servId source lineNo date then
    return s
  else
    let line ← (← entry.member "text").asString
    let level ← (← entry.member "level").asString
    let types := s.round.tables.eventTypes
    let (types, eventType) := getEventType col level (nextId (types.map NameRow.id)) types
    let round := { s.round with tables := { s.round.tables with eventTypes := types } }
    let ts ← (← entry.member "timestamp").asDouble
    let src ← (← entry.member "source").asCString
    let dm ← (← entry.member "date_mark").asCString
    let ln ← (← entry.member "line_no").asUInt
    let txt ← (← entry.member "text").asCString
    return {
      round := round.exec carried fun t =>
        t.insertLog col ⟨servId, ts, eventType, src, dm, ln, txt⟩
      text := s.text ++ line ++ "\n"
      maxlvl := if s.maxlvl < eventType then eventType else s.maxlvl }

def collectLogsWith (hostId servId : ℕ) (r : Round) (entries : List Json) : Except Fault Round := do
  let s ← entries.foldlM (collectLog col carried servId) ⟨r, "", 0⟩
  if 0 < s.maxlvl then
    alert s.round (.log hostId servId s.maxlvl s.text)
  else
    return s.round

def collectLogs : ℕ → ℕ → Round → List Json → Except Fault Round :=
  collectLogsWith Round.alert col carried

/-! ### Processes and sockets -/

structure StatusScan where
  round : Round
  failed : ℕ
  nfailed : ℕ
  ok : ℕ

def collectProcess (fp : ℚ) (servId : ℕ) (s : StatusScan) (p : Json) : Except Fault StatusScan := do
  let name ← (← p.member "name").asCString
  let path ← (← p.member "full_path").asCString
  let cwd ← (← p.member "cwd").asCString
  let user ← (← p.member "username").asCString
  let stts ← (← p.member "status").asCString
  if (← (← p.member "status").asString) = "ok" then
    let pid ← (← p.member "pid").asInt
    return { s with
      round := s.round.exec carried fun t =>
        t.insertProcess col ⟨servId, name, path, cwd, user, pid, stts, fp⟩
      ok := s.ok + 1 }
  else
    let known := s.round.tables.haveProcessStatus col servId
      (← (← p.member "name").asString) (← (← p.member "status").asString)
    return { s with
      round := s.round.exec carried fun t =>
        t.insertProcess col ⟨servId, name, path, cwd, user, 0, stts, fp⟩
      nfailed := if known then s.nfailed else s.nfailed + 1
      failed := s.failed + 1 }

def collectSocket (fp : ℚ) (servId : ℕ) (s : StatusScan) (p : Json) : Except Fault StatusScan := do
  let counted ←
    if (← (← p.member "status").asString) = "ok" then
      pure { s with ok := s.ok + 1 }
    else do
      let known := s.round.tables.haveSocketStatus col servId
        (← (← p.member "name").asString) (← (← p.member "status").asString)
      pure { s with
        nfailed := if known then s.nfailed else s.nfailed + 1
        failed := s.failed + 1 }
  let name ← (← p.member "name").asCString
  let stts ← (← p.member "status").asCString
  return { counted with
    round := counted.round.exec carried fun t => t.insertSocket col ⟨servId, name, stts, fp⟩ }

/-! ### A service -/

/-- The round, and the hosts seen so far. -/
def collectServiceWith (fp : ℚ) (acc : Round × List ℕ) (service : String × Json) :
    Except Fault (Round × List ℕ) := do
  let v := service.2
  let t := acc.1.tables
  let host ← (← (← v.member "logs").member "host").asString
  let (hosts, hostId) := getHost col host (nextId (t.hosts.map NameRow.id)) t.hosts
  let (services, servId) :=
    getService col hostId service.1 (nextId (t.services.map ServiceRow.id)) t.services
  let type ← (← (← (← v.member "status").member "properties").member "type").asString
  let (types, typeId) := getServiceType col type (nextId (t.types.map NameRow.id)) t.types
  let r := { acc.1 with tables := { t with hosts := hosts, services := services, types := types } }
  let r ← collectLogsWith alert col carried hostId servId r
    (← (← v.member "logs").member "entries").elements
  let s ← (← (← v.member "status").member "process").elements.foldlM
    (collectProcess col carried fp servId) ⟨r, 0, 0, 0⟩
  let s ← (← (← v.member "status").member "sockets").elements.foldlM
    (collectSocket col carried fp servId) s
  let r ←
    if 0 < s.nfailed then do
      let msg := "Service " ++ service.1 ++ " on " ++ (← (← v.member "host").asString) ++ " have " ++
        toString s.failed ++ " failed componant"
      alert s.round (.service hostId servId msg)
    else
      pure s.round
  let r := r.exec carried fun t => t.updateType servId typeId
  let r := r.exec carried fun t => t.insertHistory ⟨servId, fp, s.failed, 0, s.ok⟩
  return (r, hostId :: acc.2)

def collectService : ℚ → Round × List ℕ → String × Json → Except Fault (Round × List ℕ) :=
  collectServiceWith Round.alert col carried

/-- The services of the known hosts that the reply does not have. -/
def collectMissing (fp : ℚ) (hosts : List ℕ) (r : Round) : Round :=
  (hosts.dedup.insertionSort (· ≤ ·)).foldl
    (fun r hostId => r.exec carried fun t => t.insertMissing hostId fp) r

end services

/-! ### Resource clients -/

/-- `getline(base, s, '/')`: what stands before each slash, and a rest that is not empty. -/
def getlines : List Char → List Char → List String
  | [], [] => []
  | [], rest => [String.ofList rest.reverse]
  | '/' :: cs, line => String.ofList line.reverse :: getlines cs []
  | c :: cs, line => getlines cs (c :: line)

def pieces (baseurl : String) : List String := getlines baseurl.toList []

/-- `strings[i]` -/
def pieceAt (strings : List String) (i : ℕ) : Except Fault String :=
  match strings[i]? with
  | some s => .ok s
  | none => .error .outOfBounds

namespace RessourceClient

/-- The part of the reply that a client parses. -/
def node (c : RessourceClient) (data : Json) : Except Fault Json := do
  let strings := pieces c.baseurl
  if c.isService then
    let collectors ← (← (← data.member "services").member c.servName).member "collectors"
    (← collectors.member (← pieceAt strings 3)).member (← pieceAt strings 4)
  else
    let system ← data.member "system"
    (← system.member (← pieceAt strings 2)).member (← pieceAt strings 3)

end RessourceClient

/-- Parses the part of one client, and keeps its open events with it. -/
def collectRessourceWith (alert : ParseState → Alert → Except Fault ParseState)
    (answers : ℕ → Answer) (data : Json) (acc : List RessourceClient × ParseState)
    (c : RessourceClient) : Except Fault (List RessourceClient × ParseState) := do
  let s ← parseWith alert c answers { acc.2 with currentEvents := c.currentEvents } (← c.node data)
  return (acc.1 ++ [{ c with currentEvents := s.currentEvents }], s)

def collectRessource : (ℕ → Answer) → Json → List RessourceClient × ParseState → RessourceClient →
    Except Fault (List RessourceClient × ParseState) :=
  collectRessourceWith ParseState.alert

/-! ### The reply -/

structure AgentClient where
  since : ℚ
  ressources : List RessourceClient

/-- After a call of `collect`. -/
structure Collected where
  agent : AgentClient
  round : Round
  parsed : ParseState

/-- `reply` is none if the request fails; `grabbed` says whether there is a connection. -/
def collectWith (alert : Round → ServiceAlert → Except Fault Round)
    (alertEvent : ParseState → Alert → Except Fault ParseState) (col : Collation)
    (carried : ℕ → Bool) (answers : ℕ → Answer) (fp : ℚ) (reply : Option Json) (grabbed : Bool)
    (agent : AgentClient) (tables : ServiceTables) (db : Database) : Except Fault Collected := do
  match reply with
  | none => return ⟨agent, ⟨tables, 0, []⟩, .start ∅ db⟩
  | some data =>
      let since ← (← data.member "timestamp").asDouble
      let agent := { agent with since := since }
      if grabbed then
        let (r, hosts) ← (← data.member "services").entries.foldlM
          (collectServiceWith alert col carried fp) (⟨tables, 0, []⟩, [])
        let r := collectMissing carried fp hosts r
        let (ressources, s) ← agent.ressources.foldlM
          (collectRessourceWith alertEvent answers data) ([], .start ∅ db)
        return ⟨{ agent with ressources := ressources }, r, s⟩
      else
        return ⟨agent, ⟨tables, 0, []⟩, .start ∅ db⟩

/-- `collect` with calls of the alerters that are only noted. -/
def collect : Collation → (ℕ → Bool) → (ℕ → Answer) → ℚ → Option Json → Bool → AgentClient →
    ServiceTables → Database → Except Fault Collected :=
  collectWith Round.alert ParseState.alert

end WatchedBack
