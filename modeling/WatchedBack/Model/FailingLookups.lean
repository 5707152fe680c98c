import WatchedBack.Model.Lookups
import WatchedBack.Model.Api

/-! The lookups of `dbTools.cpp` with what their statements come to: `store` and `exec` answer
`false` or throw, and every handler goes on behind the statement. -/

namespace WatchedBack

/-- What a statement comes to: it is carried out, answers `false`, or throws. -/
inductive Sent
  | done | failed | threw
  deriving DecidableEq, Repr

/-- `*res.begin()` of a select. A result converts to true also when it has no rows, and then there
is no first row to read; nothing is read of a select that was not carried out. -/
def selectFirst {α β : Type} (found : α → Bool) (read : α → β) (rows : List α) :
    Sent → Except Fault (Option β)
  | .done =>
      match rows.find? found with
      | none => .error .outOfBounds
      | some row => .ok (some (read row))
  | .failed => .ok none
  | .threw => .ok none

/-- `haveHost` and its like: the count is a row in any case, and a failure counts none. -/
def haveRow {α : Type} (found : α → Bool) (rows : List α) : Sent → Bool
  | .done => rows.any found
  | .failed => false
  | .threw => false

/-- What a lookup meets: whether it has a connection, and what its statements come to. -/
structure LookupAnswer where
  grabbed : Bool
  count : Sent
  insert : Sent
  select : Sent
  deriving DecidableEq, Repr

namespace LookupAnswer

variable (answer : LookupAnswer)

/-- The insert is sent if no row was counted. A failure is logged. -/
def insertMissing {α : Type} (found : α → Bool) (row : α) (rows : List α) : List α :=
  if haveRow found rows answer.count then rows
  else
    match answer.insert with
    | .done => rows ++ [row]
    | .failed => rows
    | .threw => rows

def selectId {α : Type} (found : α → Bool) (idOf : α → ℕ) (rows : List α) : Except Fault ℕ := do
  return (← selectFirst found idOf rows answer.select).getD 0

/-- The count, the insert and the select of a lookup. -/
def getOrCreate {α : Type} (found : α → Bool) (idOf : α → ℕ) (row : α) (rows : List α) :
    Except Fault (List α × ℕ) := do
  if answer.grabbed then
    let rows := answer.insertMissing found row rows
    return (rows, ← answer.selectId found idOf rows)
  else
    return (rows, 0)

variable (col : Collation)

def getHost (name : String) (newId : ℕ) (hosts : List NameRow) : Except Fault (List NameRow × ℕ) :=
  answer.getOrCreate (fun row => col.same row.name name) NameRow.id ⟨newId, name⟩ hosts

def getService (hostId : ℕ) (name : String) (newId : ℕ) (services : List ServiceRow) :
    Except Fault (List ServiceRow × ℕ) :=
  answer.getOrCreate (fun row => row.hostId = hostId ∧ col.same row.name name) ServiceRow.id
    ⟨newId, hostId, none, name⟩ services

def getServiceType (name : String) (newId : ℕ) (types : List NameRow) :
    Except Fault (List NameRow × ℕ) :=
  answer.getOrCreate (fun row => col.same row.name name) NameRow.id ⟨newId, name⟩ types

def getEventType (name : String) (newId : ℕ) (eventTypes : List NameRow) :
    Except Fault (List NameRow × ℕ) :=
  answer.getOrCreate (isEventType col name) NameRow.id ⟨newId, name⟩ eventTypes

def getBackend (me cfg : String) (newId : ℕ) (backends : List BackendRow) :
    Except Fault (List BackendRow × ℕ) :=
  answer.getOrCreate (fun row => col.same row.hostname me ∧ col.same row.filename cfg)
    BackendRow.id ⟨newId, me, cfg⟩ backends

/-- The only one that inserts nothing. -/
def getRessourceId (origin name : String) (ressources : List RessourceRow) : Except Fault ℕ :=
  if answer.grabbed then
    answer.selectId (Catalog.isRessource col origin name) RessourceRow.id ressources
  else .ok 0

end LookupAnswer

/-! ### The six lookups -/

structure LookupTables where
  hosts : List NameRow
  services : List ServiceRow
  types : List NameRow
  eventTypes : List NameRow
  backends : List BackendRow
  ressources : List RessourceRow

/-- A call with its arguments. -/
inductive LookupCall
  | getHost (name : String)
  | getService (hostId : ℕ) (name : String)
  | getServiceType (name : String)
  | getEventType (name : String)
  | getBackend (me cfg : String)
  | getRessourceId (origin name : String)
  deriving DecidableEq, Repr

/-- The tables that a call leaves, and the id that it returns; an inserted row has `newId`. -/
def LookupCall.exec (col : Collation) (newId : ℕ) (answer : LookupAnswer) (t : LookupTables) :
    LookupCall → Except Fault (LookupTables × ℕ)
  | .getHost name => do
      let (hosts, id) ← answer.getHost col name newId t.hosts
      return ({ t with hosts := hosts }, id)
  | .getService hostId name => do
      let (services, id) ← answer.getService col hostId name newId t.services
      return ({ t with services := services }, id)
  | .getServiceType name => do
      let (types, id) ← answer.getServiceType col name newId t.types
      return ({ t with types := types }, id)
  | .getEventType name => do
      let (eventTypes, id) ← answer.getEventType col name newId t.eventTypes
      return ({ t with eventTypes := eventTypes }, id)
  | .getBackend me cfg => do
      let (backends, id) ← answer.getBackend col me cfg newId t.backends
      return ({ t with backends := backends }, id)
  | .getRessourceId origin name => do
      return (t, ← answer.getRessourceId col origin name t.ressources)

end WatchedBack
