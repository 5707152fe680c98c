import WatchedBack.Library.Utf8
import WatchedBack.Model.Aggregator
import WatchedBack.Model.Ressource
import WatchedBack.Model.Services

/-! `agentClient::updateApi`: the API document of an agent, the resource clients that are made
from its paths, and the tables that are made from its definitions. -/

namespace WatchedBack

/-! ### The server -/

/-- A row of `c$ressources`. -/
structure RessourceRow where
  id : ℕ
  name : String
  origin : String
  dataType : String
  deriving DecidableEq, Repr

structure DataColumn where
  name : String
  type : String
  deriving DecidableEq, Repr

/-- A data table: its name with the `d$` before it. -/
structure DataTable where
  name : String
  columns : List DataColumn
  deriving DecidableEq, Repr

/-- The server behind `dbTools`: what the calls answer, and what they leave. -/
structure Store (σ : Type) where
  grab : σ → Bool × σ
  haveRessource (origin name : String) : σ → Bool × σ
  insertRessource (name origin dataType : String) : σ → σ
  getRessourceId (origin name : String) : σ → ℕ × σ
  getHost (name : String) : σ → ℕ × σ
  getService (hostId : ℕ) (name : String) : σ → ℕ × σ
  /-- The row of `s$ressources`, or of `h$ressources`. -/
  link (isService : Bool) (ownerId resId : ℕ) : σ → σ
  haveTable (name : String) : σ → Bool × σ
  createTable (table : DataTable) : σ → σ
  tableHasColumn (table column : String) : σ → Bool × σ
  addColumn (table : String) (column : DataColumn) : σ → σ

/-! ### The document -/

/-- What a loop over a member visits. -/
def Json.entriesAt (v : Json) (key : String) : List (String × Json) :=
  match v.member key with
  | .ok w => w.entries
  | .error _ => []

/-- What reading a text gives: no path twice, and no definition. -/
structure ApiDocument where
  value : Json
  distinct : ((value.entriesAt "paths").map Prod.fst).Nodup
  distinctDefinitions : ((value.entriesAt "definitions").map Prod.fst).Nodup

/-- `s.substr(s.rfind("/") + 1)`. A slash is one byte, which stands in no longer character. -/
def afterLast (s : List Char) : List Char := (s.reverse.takeWhile (· ≠ '/')).reverse

/-- What stands before the last separator, or all of it if there is none. -/
def beforeLast {α : Type} [DecidableEq α] (sep : α) (s : List α) : List α :=
  if sep ∈ s then ((s.reverse.dropWhile (· ≠ sep)).drop 1).reverse else s

def slash : UInt8 := UInt8.ofNat '/'.toNat

/-- `key.substr(1, key.rfind("/") - 1)`, counted in bytes: if the only slash is the first one, the
count wraps. -/
def pathRes (key : List UInt8) : Except Fault (List UInt8) :=
  match key with
  | [] => .error .outOfBounds
  | _ :: rest => .ok (beforeLast slash rest)

/-- The origin and the name of a resource. If no slash follows, `find("/") + 10` wraps to 9. -/
def ressourceName (res : List UInt8) : Except Fault (String × String) :=
  if (Utf8.bytes "system/").isPrefixOf res then .ok ("host", Utf8.text (res.drop 7))
  else if res.length < 9 then .error .outOfBounds
  else
    let rest := res.drop 9
    let name := if slash ∈ rest then (rest.dropWhile (· ≠ slash)).drop 1 else rest
    .ok ("service", Utf8.text name)

/-- What is read of a path before the server is asked. -/
structure PathItem where
  origin : String
  name : String
  table : String
  host : String
  deriving DecidableEq, Repr

/-- None for a path that is no history, or has no getter. -/
def readPath (path : String × Json) : Except Fault (Option PathItem) := do
  let (origin, name) ← ressourceName (← pathRes (Utf8.bytes path.1))
  if afterLast path.1.toList ≠ "history".toList then
    return none
  else if ← path.2.isMember "get" then
    let ref ← (← path.2.path ["get", "responses", "200", "schema", "items", "$ref"]).asString
    let host ← (← path.2.member "x-host").asString
    return some ⟨origin, name, String.ofList (afterLast ref.toList), host⟩
  else
    return none

/-- The service of a path. -/
def readService (v : Json) : Except Fault (Option String) := do
  if ← v.isMember "x-service" then
    return some (← (← v.member "x-service").asString)
  else
    return none

/-! ### Resource clients -/

/-- A client, and where its `def` points to: the reading of `api`, counted by `serial`, and the
definition there whose properties it has. -/
structure BoundClient where
  client : RessourceClient
  serial : ℕ
  defName : String

/-- `serial` counts the texts that were read into `api`; `asked` holds the definitions that
`operator[]` was called for since. -/
structure AgentApi where
  api : Json
  serial : ℕ
  asked : List String
  ressources : List BoundClient

def AgentApi.new : AgentApi := ⟨.null, 0, [], []⟩

/-- The constructor, and `setService`. -/
def RessourceClient.make (ownerId resId : ℕ) (baseurl table : String) (service : Option String)
    (definition : Json) : RessourceClient where
  isService := service.isSome
  hostId := ownerId
  resId := resId
  baseurl := baseurl
  table := table
  servName := service.getD ""
  definition := definition
  baseInsert := ⟨"", "", 0, 0, [], [], []⟩
  eventFactory := []
  currentEvents := ∅

section update

variable {σ : Type} (store : Store σ) (db : Database)

def lookupRessource (item : PathItem) (s : σ) : ℕ × σ :=
  let (known, s) := store.haveRessource item.origin item.name s
  let s := if known then s else store.insertRessource item.name item.origin item.table s
  store.getRessourceId item.origin item.name s

/-- The id of the service, or else of the host. -/
def lookupOwner (hostId : ℕ) (service : Option String) (s : σ) : ℕ × σ :=
  match service with
  | some name => store.getService hostId name s
  | none => (hostId, s)

/-- The loop over the paths up to the search for the client: what a new one would be. -/
def describe (api : Json) (path : String × Json) (s : σ) :
    Except Fault (Option RessourceClient × σ) := do
  match ← readPath path with
  | none => return (none, s)
  | some item =>
      let (resId, s) := lookupRessource store item s
      let (hostId, s) := store.getHost item.host s
      if resId = 0 then
        return (none, s)
      else
        let service ← readService path.2
        let (ownerId, s) := lookupOwner store hostId service s
        let s := store.link service.isSome ownerId resId s
        let definition ← api.path ["definitions", item.table, "properties"]
        return (some (.make ownerId resId path.1 item.table service definition), s)

/-- `updateDefs` of a client with the path of the new one. -/
def BoundClient.rebind (serial : ℕ) (new : RessourceClient) (b : BoundClient) : BoundClient :=
  ⟨b.client.updateDefs new.definition, serial, new.table⟩

/-- The clients of the path are bound to the definition, or a client is added. -/
def addRessource (a : AgentApi) (new : RessourceClient) : AgentApi :=
  { a with
    asked := a.asked ++ [new.table]
    ressources :=
      if a.ressources.any fun b => b.client.baseurl = new.baseurl then
        a.ressources.map fun b =>
          if b.client.baseurl = new.baseurl then b.rebind a.serial new else b
      else a.ressources ++ [⟨new.init db, a.serial, new.table⟩] }

/-- One path of the loop. -/
def createRessource (acc : AgentApi × σ) (path : String × Json) : Except Fault (AgentApi × σ) := do
  match ← describe store acc.1.api path acc.2 with
  | (none, s) => return (acc.1, s)
  | (some new, s) => return (addRessource db acc.1 new, s)

def createRessources (a : AgentApi) (s : σ) : Except Fault (AgentApi × σ) := do
  let (grabbed, s) := store.grab s
  if grabbed then
    (← a.api.member "paths").entries.foldlM (createRessource store db) (a, s)
  else
    return (a, s)

/-! ### Data tables -/

/-- The type of the column of a property. Any other type is converted to be logged. -/
def columnType (property : Json) : Except Fault (Option String) := do
  match ← property.member "type" with
  | .str "number" => return some "double(20,4)"
  | .str "integer" => return some "integer(32)"
  | type =>
      let _ ← type.asString
      return none

/-- What the loop over `api["definitions"]` visits: `operator[]` has created each definition that
was asked for and missing, with null properties. -/
def AgentApi.definitions (a : AgentApi) : Except Fault (List (String × Json)) := do
  let known := (← a.api.member "definitions").entries
  let created := a.asked.dedup.filter fun name => name ∉ known.map Prod.fst
  return known ++ created.map fun name => (name, .null)

/-- A core table, or a definition of a service. -/
def skipped (definition : String × Json) : Except Fault Bool := do
  if ← definition.2.isMember "x-isService" then
    return !(← (← definition.2.member "x-isService").asBool)
  else
    return "service".toList.isPrefixOf definition.1.toList

/-- The columns of the properties. -/
def propertyColumns (properties : List (String × Json)) : Except Fault (List DataColumn) :=
  properties.foldlM (fun columns property => do
    match ← columnType property.2 with
    | some type => return columns ++ [⟨property.1, type⟩]
    | none => return columns) []

/-- The columns of a new table. -/
def newColumns (definition : Json) : Except Fault (List DataColumn) := do
  let id := if ← definition.isMember "x-isService" then "serv_id" else "host_id"
  let properties := (← definition.member "properties").entries.filter fun p => p.1 ≠ "timestamp"
  return [⟨id, "int(32) unsigned"⟩, ⟨"res_id", "int(32) unsigned"⟩,
    ⟨"timestamp", "double(20,4) unsigned"⟩] ++ (← propertyColumns properties)

/-- A missing column is added. -/
def addMissing (table : String) (s : σ) (property : String × Json) : Except Fault σ := do
  let (known, s) := store.tableHasColumn table property.1 s
  if known then
    return s
  else
    match ← columnType property.2 with
    | some type => return store.addColumn table ⟨property.1, type⟩ s
    | none => return s

/-- One definition of the loop. -/
def createTable (s : σ) (definition : String × Json) : Except Fault σ := do
  if ← skipped definition then
    return s
  else
    let table := "d$" ++ definition.1
    let (known, s) := store.haveTable table s
    if known then
      (← definition.2.member "properties").entries.foldlM (addMissing store table) s
    else
      return store.createTable ⟨table, ← newColumns definition.2⟩ s

def createTables (a : AgentApi) (s : σ) : Except Fault σ := do
  let (grabbed, s) := store.grab s
  if grabbed then
    (← a.definitions).foldlM (createTable store) s
  else
    return s

/-! ### The update -/

/-- The clients whose path the document has. The paths are read for each client. -/
def AgentApi.erase (a : AgentApi) : Except Fault AgentApi :=
  if a.ressources.isEmpty then .ok a
  else do
    let paths := (← a.api.member "paths").keys
    return { a with ressources := a.ressources.filter fun b => b.client.baseurl ∈ paths }

/-- What `getJSON` comes to. A text that is rejected may have overwritten `api`. -/
inductive ApiReply
  | unreachable
  | rejected (left : Option Json)
  | document (doc : ApiDocument)

/-- What was read is in `api`. -/
def AgentApi.read (a : AgentApi) (api : Json) : AgentApi :=
  { a with api := api, serial := a.serial + 1, asked := [] }

/-- `updateApi` of a ready agent. -/
def updateApi (reply : ApiReply) (a : AgentApi) (s : σ) : Except Fault (AgentApi × σ) := do
  match reply with
  | .unreachable => return (a, s)
  | .rejected none => return (a, s)
  | .rejected (some left) => return (a.read left, s)
  | .document doc =>
      let (a, s) ← createRessources store db (a.read doc.value) s
      let s ← createTables store a s
      return (← a.erase, s)

end update

/-! ### The tables -/

/-- The tables that an update reads and changes. An id is counted from 1, and that of a service
is its primary key. -/
structure Catalog where
  ressources : List RessourceRow
  hosts : List NameRow
  services : List ServiceRow
  tables : List DataTable
  positive : ∀ row ∈ ressources, row.id ≠ 0
  keyed : (services.map ServiceRow.id).Nodup

namespace Catalog

variable (col : Collation)

def isRessource (origin name : String) (row : RessourceRow) : Bool :=
  col.same row.name name ∧ col.same row.origin origin

def insertRessource (name origin dataType : String) (c : Catalog) : Catalog :=
  { c with
    ressources := c.ressources ++ [⟨nextId (c.ressources.map RessourceRow.id), name, origin, dataType⟩]
    positive := by
      intro row hrow
      rcases List.mem_append.mp hrow with h | h
      · exact c.positive row h
      · rw [List.mem_singleton.mp h]
        exact Nat.succ_ne_zero _ }

def getHost (name : String) (c : Catalog) : ℕ × Catalog :=
  let r := WatchedBack.getHost col name (nextId (c.hosts.map NameRow.id)) c.hosts
  (r.2, { c with hosts := r.1 })

def getService (hostId : ℕ) (name : String) (c : Catalog) : ℕ × Catalog :=
  let r := WatchedBack.getService col hostId name (nextId (c.services.map ServiceRow.id)) c.services
  (r.2, { c with
    services := r.1
    keyed := by
      simp only [r, WatchedBack.getService]
      split
      · exact c.keyed
      · simp only [List.map_append, List.map_cons, List.map_nil]
        exact List.nodup_append.mpr ⟨c.keyed, List.nodup_singleton _, by
          intro a ha b hb heq
          rw [heq, List.mem_singleton.mp hb] at ha
          exact nextId_notMem _ ha⟩ })

/-- Table names are told apart to the byte, column names are not. -/
def tableHasColumn (table column : String) (c : Catalog) : Bool :=
  c.tables.any fun t => t.name = table ∧ t.columns.any fun k => col.same k.name column

def addColumn (table : String) (column : DataColumn) (c : Catalog) : Catalog :=
  { c with tables := c.tables.map fun t =>
      if t.name = table then { t with columns := t.columns ++ [column] } else t }

/-- Every statement is carried out, and there is a connection. The rows that link resources to
hosts and services are no part of these tables. -/
def store : Store Catalog where
  grab c := (true, c)
  haveRessource origin name c := (c.ressources.any (isRessource col origin name), c)
  insertRessource name origin dataType c := c.insertRessource name origin dataType
  getRessourceId origin name c :=
    (((c.ressources.find? (isRessource col origin name)).map RessourceRow.id).getD 0, c)
  getHost name c := c.getHost col name
  getService hostId name c := c.getService col hostId name
  link _ _ _ c := c
  haveTable name c := (c.tables.any fun t => t.name = name, c)
  createTable table c := { c with tables := c.tables ++ [table] }
  tableHasColumn table column c := (c.tableHasColumn col table column, c)
  addColumn table column c := c.addColumn table column

end Catalog

/-! ### The list of the aggregator -/

/-- A row of `c$aggregate_config`. -/
structure AggregateConfig where
  name : String
  data : AggregData

/-- A row of `c$data_configs`. -/
structure DataConfig where
  dataType : String
  data : AggregData

/-- `select distinct`: the first of equal names. -/
def distinctNames (col : Collation) (names : List String) : List String :=
  names.foldl (fun seen name =>
    if seen.any fun s => col.same s name then seen else seen ++ [name]) []

/-- The view `c$data_configs`: a data type has a configuration of its own, or the default. -/
def dataConfigs (col : Collation) (config : List AggregateConfig)
    (ressources : List RessourceRow) : List DataConfig :=
  (config.filter fun c => col.same c.name "default").flatMap fun c =>
    (distinctNames col (ressources.map RessourceRow.dataType)).flatMap fun dataType =>
      let own := config.filter fun a => col.same dataType a.name
      if own.isEmpty then [⟨dataType, c.data⟩] else own.map fun a => ⟨dataType, a.data⟩

/-! ### Agents -/

/-- One `updateApi` of an agent, from what the server is then. -/
structure ServerCall (σ : Type) where
  db : Database
  server : σ
  reply : ApiReply

def AgentApi.update {σ : Type} (store : Store σ) (a : AgentApi) (call : ServerCall σ) :
    Except Fault AgentApi := do
  let (a, _) ← updateApi store call.db call.reply a call.server
  return a

/-- The tables and the agents of a backend. -/
structure Fleet where
  catalog : Catalog
  agents : ℕ → AgentApi

/-- One `updateApi`: by which agent, with which open events, on which reply. -/
structure UpdateCall where
  agent : ℕ
  db : Database
  reply : ApiReply

namespace Fleet

variable (col : Collation)

/-- No agent has been updated yet. -/
def start (c : Catalog) : Fleet := ⟨c, fun _ => .new⟩

def update (f : Fleet) (call : UpdateCall) : Except Fault Fleet := do
  let (a, c) ← updateApi (Catalog.store col) call.db call.reply (f.agents call.agent) f.catalog
  return ⟨c, Function.update f.agents call.agent a⟩

/-- Updates one after the other. -/
def run (f : Fleet) (calls : List UpdateCall) : Except Fault Fleet :=
  calls.foldlM (update col) f

end Fleet

/-! ### The disk of a host -/

/-- A path with a getter of the definition. -/
def getterPath (ref : String) (members : List (String × Json)) : Json :=
  .obj (("get", .obj [("responses", .obj [("200", .obj [("schema",
    .obj [("items", .obj [("$ref", .str ref)])])])])]) :: members)

/-- A definition with one property. -/
def oneProperty (name type : String) : Json :=
  .obj [("properties", .obj [(name, .obj [("type", .str type)])])]

def apiValue (paths definitions : List (String × Json)) : Json :=
  .obj [("definitions", .obj definitions), ("paths", .obj paths)]

/-- The disk of the host `web`, as a path of the given definition. -/
def diskDocOf (name : String) (definition : Json) : ApiDocument where
  value := apiValue
    [("/system/disk/history", getterPath ("#/definitions/" ++ name) [("x-host", .str "web")])]
    [(name, definition)]
  distinct := by simp [apiValue, Json.entriesAt, Json.member, Json.entries, List.lookup]
  distinctDefinitions := by
    simp [apiValue, Json.entriesAt, Json.member, Json.entries, List.lookup]

def diskDoc (name : String) : ApiDocument := diskDocOf name (oneProperty "pctfree" "number")

/-- The same path without its getter. -/
def diskClosed : ApiDocument where
  value := apiValue [("/system/disk/history", .obj [("x-host", .str "web")])] []
  distinct := by simp [apiValue, Json.entriesAt, Json.member, Json.entries, List.lookup]
  distinctDefinitions := by
    simp [apiValue, Json.entriesAt, Json.member, Json.entries, List.lookup]

def emptyCatalog : Catalog := ⟨[], [], [], [], by simp, by simp⟩

end WatchedBack
