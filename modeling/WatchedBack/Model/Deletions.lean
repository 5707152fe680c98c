import WatchedBack.Library.AutoIncrement
import WatchedBack.Model.Lookups
import WatchedBack.Model.Ressources

/-! The rows of `h$ressources` and `s$ressources`, which samples and events refer to, while agents
are updated and somebody deletes hosts, services and resources. -/

namespace WatchedBack

open UniqueIndex

/-- `createRessources` looks resources up by origin and name, and inserts those it does not find. -/
def ressourceNames (col : Collation) : Index RessourceRow RessourceKey where
  idOf := RessourceRow.id
  keyOf row := ⟨row.dataType, row.name, row.origin⟩
  row id k := ⟨id, k.name, k.origin, k.dataType⟩
  same k l := col.same k.name l.name ∧ col.same k.origin l.origin
  refl k := by simp [col.refl]
  symm h := by
    simp only [decide_eq_true_eq] at h ⊢
    exact ⟨col.symm h.1, col.symm h.2⟩
  trans h h' := by
    simp only [decide_eq_true_eq] at h h' ⊢
    exact ⟨col.trans h.1 h'.1, col.trans h.2 h'.2⟩
  idOf_row := (ressourceIndex col).idOf_row
  keyOf_row := (ressourceIndex col).keyOf_row

/-! ### The tables -/

/-- The tables with the foreign keys of `s$services`, `h$ressources` and `s$ressources`. -/
structure LinkTables (col : Collation) where
  ressources : Numbered (ressourceNames col)
  hosts : Numbered (nameIndex col)
  services : Numbered (serviceIndex col)
  tables : List DataTable
  hRessources : List (ℕ × ℕ)
  sRessources : List (ℕ × ℕ)
  hostOfService : ∀ row ∈ services.rows, row.hostId ∈ hosts.numbers
  hostLinks : ∀ l ∈ hRessources, l.1 ∈ hosts.numbers ∧ l.2 ∈ ressources.numbers
  serviceLinks : ∀ l ∈ sRessources, l.1 ∈ services.numbers ∧ l.2 ∈ ressources.numbers

/-- A `delete from … where …` by the key of a table. -/
inductive Deletion
  | host (id : ℕ)
  | service (id : ℕ)
  | ressource (id : ℕ)
  | hostRessource (hostId resId : ℕ)
  | serviceRessource (servId resId : ℕ)
  deriving DecidableEq, Repr

namespace LinkTables

variable {col : Collation} (t : LinkTables col)

def empty (col : Collation) : LinkTables col where
  ressources := .empty _
  hosts := .empty _
  services := .empty _
  tables := []
  hRessources := []
  sRessources := []
  hostOfService := by simp [Numbered.empty, Table.empty]
  hostLinks := by simp
  serviceLinks := by simp

/-! ### Inserts -/

def insertRessource (name origin dataType : String) : LinkTables col where
  __ := t
  ressources := t.ressources.ensure ⟨dataType, name, origin⟩
  hostLinks l hl :=
    ⟨(t.hostLinks l hl).1, Numbered.numbers_subset (t.ressources.subset_ensure _) (t.hostLinks l hl).2⟩
  serviceLinks l hl :=
    ⟨(t.serviceLinks l hl).1,
      Numbered.numbers_subset (t.ressources.subset_ensure _) (t.serviceLinks l hl).2⟩

def addHost (name : String) : LinkTables col where
  __ := t
  hosts := t.hosts.ensure name
  hostOfService row hrow := Numbered.numbers_subset (t.hosts.subset_ensure _) (t.hostOfService row hrow)
  hostLinks l hl :=
    ⟨Numbered.numbers_subset (t.hosts.subset_ensure _) (t.hostLinks l hl).1, (t.hostLinks l hl).2⟩

/-- The server refuses a service of a host that is not there. -/
def addService (hostId : ℕ) (name : String) : LinkTables col :=
  if h : hostId ∈ t.hosts.numbers then
    { t with
      services := t.services.ensure (hostId, name)
      hostOfService := by
        intro row hrow
        rw [Numbered.rows_ensure] at hrow
        split at hrow
        · rcases List.mem_append.mp hrow with hold | hnew
          · exact t.hostOfService row hold
          · rw [List.mem_singleton.mp hnew]
            exact h
        · exact t.hostOfService row hrow
      serviceLinks := fun l hl =>
        ⟨Numbered.numbers_subset (t.services.subset_ensure _) (t.serviceLinks l hl).1,
          (t.serviceLinks l hl).2⟩ }
  else t

/-- `h$ressources`, or `s$ressources`. -/
def links (isService : Bool) : List (ℕ × ℕ) := if isService then t.sRessources else t.hRessources

/-- The hosts, or the services. -/
def owners (isService : Bool) : List ℕ :=
  if isService then t.services.numbers else t.hosts.numbers

/-- Links are compared as pairs. -/
local instance pairLawfulBEq : LawfulBEq (ℕ × ℕ) := inferInstance

/-- The server refuses a link whose owner or resource is not there. -/
def linkHost (hostId resId : ℕ) : LinkTables col :=
  if h : (hostId, resId) ∉ t.hRessources ∧ hostId ∈ t.hosts.numbers ∧
      resId ∈ t.ressources.numbers then
    { t with
      hRessources := t.hRessources ++ [(hostId, resId)]
      hostLinks := by
        intro l hl
        rcases List.mem_append.mp hl with hold | hnew
        · exact t.hostLinks l hold
        · rw [List.mem_singleton.mp hnew]
          exact h.2 }
  else t

def linkService (servId resId : ℕ) : LinkTables col :=
  if h : (servId, resId) ∉ t.sRessources ∧ servId ∈ t.services.numbers ∧
      resId ∈ t.ressources.numbers then
    { t with
      sRessources := t.sRessources ++ [(servId, resId)]
      serviceLinks := by
        intro l hl
        rcases List.mem_append.mp hl with hold | hnew
        · exact t.serviceLinks l hold
        · rw [List.mem_singleton.mp hnew]
          exact h.2 }
  else t

/-- `insert into … values (…) ON DUPLICATE KEY UPDATE res_id=res_id` -/
def link (isService : Bool) (ownerId resId : ℕ) : LinkTables col :=
  if isService then t.linkService ownerId resId else t.linkHost ownerId resId

/-! ### Deletions -/

/-- The rows that are kept, and of the rows that refer to others those whose rows are kept:
`on delete cascade`. -/
def restrict (keepRessource : RessourceRow → Bool) (keepHost : NameRow → Bool)
    (keepService : ServiceRow → Bool) (keepHostLink keepServiceLink : ℕ × ℕ → Bool) :
    LinkTables col :=
  let ressources := t.ressources.restrict keepRessource
  let hosts := t.hosts.restrict keepHost
  let services := t.services.restrict fun row =>
    keepService row && decide (row.hostId ∈ hosts.numbers)
  { ressources, hosts, services
    tables := t.tables
    hRessources := t.hRessources.filter fun l =>
      keepHostLink l && decide (l.1 ∈ hosts.numbers ∧ l.2 ∈ ressources.numbers)
    sRessources := t.sRessources.filter fun l =>
      keepServiceLink l && decide (l.1 ∈ services.numbers ∧ l.2 ∈ ressources.numbers)
    hostOfService := fun _ hrow =>
      of_decide_eq_true ((Bool.and_eq_true _ _).mp (List.mem_filter.mp hrow).2).2
    hostLinks := fun _ hl =>
      of_decide_eq_true ((Bool.and_eq_true _ _).mp (List.mem_filter.mp hl).2).2
    serviceLinks := fun _ hl =>
      of_decide_eq_true ((Bool.and_eq_true _ _).mp (List.mem_filter.mp hl).2).2 }

def delete (d : Deletion) : LinkTables col :=
  let every {α : Type} : α → Bool := fun _ => true
  match d with
  | .host id => t.restrict every (·.id ≠ id) every every every
  | .service id => t.restrict every every (·.id ≠ id) every every
  | .ressource id => t.restrict (·.id ≠ id) every every every every
  | .hostRessource hostId resId => t.restrict every every every (· ≠ (hostId, resId)) every
  | .serviceRessource servId resId => t.restrict every every every every (· ≠ (servId, resId))

/-! ### The server -/

def addColumn (table : String) (column : DataColumn) : LinkTables col :=
  { t with tables := t.tables.map fun d =>
      if d.name = table then { d with columns := d.columns ++ [column] } else d }

/-- Every statement is carried out, and there is a connection. -/
def store (col : Collation) : Store (LinkTables col) where
  grab t := (true, t)
  haveRessource origin name t := (t.ressources.rows.any (Catalog.isRessource col origin name), t)
  insertRessource name origin dataType t := t.insertRessource name origin dataType
  getRessourceId origin name t := (t.ressources.select (Catalog.isRessource col origin name), t)
  getHost name t := ((t.addHost name).hosts.number name, t.addHost name)
  getService hostId name t :=
    ((t.addService hostId name).services.number (hostId, name), t.addService hostId name)
  link isService ownerId resId t := t.link isService ownerId resId
  haveTable name t := (t.tables.any fun d => d.name = name, t)
  createTable table t := { t with tables := t.tables ++ [table] }
  tableHasColumn table column t :=
    (t.tables.any fun d => d.name = table ∧ d.columns.any fun k => col.same k.name column, t)
  addColumn table column t := t.addColumn table column

end LinkTables

/-! ### Agents -/

/-- The tables and the agents. -/
structure LinkedAgents (col : Collation) where
  tables : LinkTables col
  agents : ℕ → AgentApi

/-- An update of an agent, a deletion, or a start of the backend of an agent. -/
inductive LinkStep
  | update (call : UpdateCall)
  | delete (deletion : Deletion)
  | restart (agent : ℕ)

namespace LinkedAgents

variable {col : Collation} (f : LinkedAgents col)

/-- No agent has been updated yet. -/
def start (t : LinkTables col) : LinkedAgents col := ⟨t, fun _ => .new⟩

/-- One `updateApi`. -/
def update (call : UpdateCall) : Except Fault (LinkedAgents col) := do
  let (a, t) ← updateApi (LinkTables.store col) call.db call.reply (f.agents call.agent) f.tables
  return ⟨t, Function.update f.agents call.agent a⟩

def step : LinkStep → Except Fault (LinkedAgents col)
  | .update call => f.update call
  | .delete deletion => return { f with tables := f.tables.delete deletion }
  | .restart agent => return { f with agents := Function.update f.agents agent .new }

def run (steps : List LinkStep) : Except Fault (LinkedAgents col) := steps.foldlM step f

end LinkedAgents

end WatchedBack
