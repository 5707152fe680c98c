import WatchedBack.Model.Api

/-! The rules of `h$event_factory` for a resource of a host: those that `ressourceClient::init`
loads, those that the view `h$monitoring_items` shows, and how `createRessources` fills the tables
behind both. -/

namespace WatchedBack

/-! ### Rules -/

namespace FactoryRow

/-- A rule for the owner and the resource; a null is for all. -/
def concerns (ownerId resId : ℕ) (row : FactoryRow) : Bool :=
  (row.ownerId = some ownerId ∨ row.ownerId = none) ∧ (row.resId = some resId ∨ row.resId = none)

/-- `res_type=…` -/
def names (col : Collation) (type : String) (row : FactoryRow) : Bool :=
  row.resType.any fun resType => col.same resType type

/-- `res_type=… or res_type is null` -/
def isFor (col : Collation) (type : String) (row : FactoryRow) : Bool :=
  row.names col type || row.resType.isNone

end FactoryRow

/-- What the query of `init` for the factory selects. -/
def RessourceClient.factoryRules (col : Collation) (c : RessourceClient) (db : Database) :
    List ResEvent :=
  ((db.eventFactory c.isService).filter fun row =>
    row.concerns c.hostId c.resId && row.isFor col c.table).map FactoryRow.event

/-! ### The tables -/

/-- The tables of `createRessources`, and the rows of `h$ressources`. -/
structure Registry where
  catalog : Catalog
  hRessources : List (ℕ × ℕ)

/-- The primary keys of `c$ressources` and `h$ressources`. -/
structure Registry.Keyed (r : Registry) : Prop where
  ids : (r.catalog.ressources.map RessourceRow.id).Nodup
  links : r.hRessources.Nodup

/-- `c$event_types`, with its primary key. -/
structure EventTypes where
  rows : List NameRow
  keyed : (rows.map NameRow.id).Nodup

/-- A row of `h$monitoring_items`. -/
structure MonitoringItem where
  hostId : ℕ
  resId : ℕ
  resName : String
  origin : String
  resType : String
  factoryHostId : Option ℕ
  factoryResId : Option ℕ
  factoryResType : Option String
  eventType : ℕ
  eventName : String
  property : String
  oper : Char
  value : Column
  deriving DecidableEq, Repr

/-- The rule of an item. -/
def MonitoringItem.rule (item : MonitoringItem) : ResEvent :=
  ⟨item.eventType, item.property, item.oper, item.value.toRat⟩

/-- A row of the join. -/
def MonitoringItem.join (r : RessourceRow) (ar : ℕ × ℕ) (ef : FactoryRow) (et : NameRow) :
    MonitoringItem where
  hostId := ar.1
  resId := ar.2
  resName := r.name
  origin := r.origin
  resType := r.dataType
  factoryHostId := ef.ownerId
  factoryResId := ef.resId
  factoryResType := ef.resType
  eventType := ef.eventType
  eventName := et.name
  property := ef.property
  oper := ef.oper
  value := ef.value

/-- The view `h$monitoring_items`. -/
def Registry.monitoringItems (col : Collation) (reg : Registry) (db : Database)
    (eventTypes : EventTypes) : List MonitoringItem :=
  reg.catalog.ressources.flatMap fun r =>
    (reg.hRessources.filter fun ar => ar.2 = r.id).flatMap fun ar =>
      (db.hEventFactory.filter fun ef => ef.concerns ar.1 ar.2 && ef.isFor col r.dataType).flatMap
        fun ef => (eventTypes.rows.filter fun et => et.id = ef.eventType).map (.join r ar ef)

/-- The rules that the view shows for a resource of a host. -/
def Registry.shownRules (col : Collation) (reg : Registry) (db : Database) (eventTypes : EventTypes)
    (hostId resId : ℕ) : List ResEvent :=
  ((reg.monitoringItems col db eventTypes).filter fun item =>
    item.hostId = hostId ∧ item.resId = resId).map MonitoringItem.rule

/-! ### Registrations -/

/-- `insert into h$ressources … ON DUPLICATE KEY UPDATE res_id=res_id` -/
def Registry.link (reg : Registry) (hostId resId : ℕ) : Registry :=
  if (hostId, resId) ∈ reg.hRessources then reg
  else { reg with hRessources := reg.hRessources ++ [(hostId, resId)] }

/-- A call that only concerns the tables of `createRessources`. -/
def Registry.onCatalog {α : Type} (call : Catalog → α × Catalog) (reg : Registry) : α × Registry :=
  ((call reg.catalog).1, { reg with catalog := (call reg.catalog).2 })

def Registry.changeCatalog (call : Catalog → Catalog) (reg : Registry) : Registry :=
  { reg with catalog := call reg.catalog }

/-- The rows of services are in `s$ressources`. -/
def Registry.store (col : Collation) : Store Registry where
  grab := onCatalog (Catalog.store col).grab
  haveRessource origin name := onCatalog ((Catalog.store col).haveRessource origin name)
  insertRessource name origin dataType :=
    changeCatalog ((Catalog.store col).insertRessource name origin dataType)
  getRessourceId origin name := onCatalog ((Catalog.store col).getRessourceId origin name)
  getHost name := onCatalog ((Catalog.store col).getHost name)
  getService hostId name := onCatalog ((Catalog.store col).getService hostId name)
  link isService ownerId resId reg := if isService then reg else reg.link ownerId resId
  haveTable name := onCatalog ((Catalog.store col).haveTable name)
  createTable table := changeCatalog ((Catalog.store col).createTable table)
  tableHasColumn table column := onCatalog ((Catalog.store col).tableHasColumn table column)
  addColumn table column := changeCatalog ((Catalog.store col).addColumn table column)

/-- The tables and the agents. -/
structure Registrations where
  registry : Registry
  agents : ℕ → AgentApi

namespace Registrations

variable (col : Collation)

/-- No agent has been updated yet. -/
def start (reg : Registry) : Registrations := ⟨reg, fun _ => .new⟩

/-- One `updateApi`. -/
def update (f : Registrations) (call : UpdateCall) : Except Fault Registrations := do
  let (a, reg) ← updateApi (Registry.store col) call.db call.reply (f.agents call.agent) f.registry
  return ⟨reg, Function.update f.agents call.agent a⟩

def run (f : Registrations) (calls : List UpdateCall) : Except Fault Registrations :=
  calls.foldlM (update col) f

/-- Without the rows of `h$ressources`. -/
def fleet (f : Registrations) : Fleet := ⟨f.registry.catalog, f.agents⟩

end Registrations

end WatchedBack
