import WatchedBack.Model.Api
import WatchedBack.Model.Query

/-! The set-up of one data type by `statAggregator.cpp`, cut at its statements, and the updates of
agents on the same tables. The keys and indexes that follow a create are left out, and the queries
for columns of `am$`, `ah$` and `ad$`, whose answers nothing uses. The configuration of the data
type is `cfg` throughout. -/

namespace WatchedBack

/-! ### Tables -/

/-- The types of a property that `createTables` makes a column of. -/
inductive PropertyType
  | number | integer
  deriving DecidableEq, Repr

structure Property where
  name : String
  type : PropertyType
  deriving DecidableEq, Repr

def Property.column (p : Property) : DataColumn :=
  ⟨p.name, match p.type with
    | .number => "double(20,4)"
    | .integer => "integer(32)"⟩

/-- A definition that `createTables` does not skip, with the properties of a known type. -/
structure Definition where
  isService : Bool
  properties : List Property
  deriving DecidableEq, Repr

/-- The columns of a create of `d$`. -/
def dataColumns (isService : Bool) (properties : List Property) : List DataColumn :=
  [⟨if isService then "serv_id" else "host_id", "int(32) unsigned"⟩, ⟨"res_id", "int(32) unsigned"⟩,
    ⟨"timestamp", "double(20,4) unsigned"⟩] ++ properties.map Property.column

/-- The server accepts no two columns of one name. -/
def Distinct (col : Collation) (columns : List DataColumn) : Prop :=
  columns.Pairwise fun a b => col.same a.name b.name = false

instance (col : Collation) (columns : List DataColumn) : Decidable (Distinct col columns) :=
  inferInstanceAs (Decidable (List.Pairwise _ _))

/-- The table `d$` of the data type. -/
structure SampleTable (col : Collation) where
  isService : Bool
  properties : List Property
  distinct : Distinct col (dataColumns isService properties)

/-- `col.data_type in ('int', 'double')` -/
def DataColumn.isNumber (c : DataColumn) : Bool :=
  c.type ∈ ["int(32) unsigned", "double(20,4) unsigned", "double(20,4)", "integer(32)"]

namespace SampleTable

variable {col : Collation}

def idName (d : SampleTable col) : String := if d.isService then "serv_id" else "host_id"

def columns (d : SampleTable col) : List DataColumn := dataColumns d.isService d.properties

def hasColumn (d : SampleTable col) (name : String) : Bool :=
  d.columns.any fun c => col.same c.name name

/-- What the query for columns selects; `idName` is the one that the thread has found. -/
def selectColumns (d : SampleTable col) (idName : String) : List String :=
  (d.columns.filter fun c => c.isNumber ∧
    ([idName, "res_id", "timestamp"].any fun name => col.same c.name name) = false).map
      DataColumn.name

/-- The int and double columns other than the ids and the timestamp. -/
def numbers (d : SampleTable col) : List String := d.selectColumns d.idName

/-- The create of `createTables`. -/
def create (definition : Definition) : Option (SampleTable col) :=
  let properties := definition.properties.filter fun p => p.name ≠ "timestamp"
  if h : Distinct col (dataColumns definition.isService properties) then
    some ⟨definition.isService, properties, h⟩
  else none

/-- `alter table d$... add` -/
def add (p : Property) (d : SampleTable col) : SampleTable col :=
  if h : Distinct col (dataColumns d.isService (d.properties ++ [p])) then
    ⟨d.isService, d.properties ++ [p], h⟩
  else d

end SampleTable

/-- A table `am$`, `ah$` or `ad$`, with the columns that it has aggregates of. -/
structure AggregTable where
  idName : String
  columns : List String
  deriving DecidableEq, Repr

/-- Whether a select finds its columns in a table. -/
def AggregTable.has (col : Collation) (t : AggregTable) (idName : String) (columns : List String) :
    Bool :=
  col.same t.idName idName ∧ ∀ c ∈ columns, t.columns.any fun k => col.same k c

/-- Whether an insert has as many values as the table has columns. -/
def AggregTable.takes (col : Collation) (t : AggregTable) (idName : String) (columns : List String) :
    Bool :=
  col.same t.idName idName ∧ t.columns.length = columns.length

/-! ### The threads -/

/-- The next statement of an update, as far as it is about the data type. -/
inductive UpdatePoint
  | idle
  | record (definition : Definition)
  | haveTable (definition : Definition)
  | createTable (definition : Definition)
  | haveColumn (properties : List Property)
  | addColumn (p : Property) (properties : List Property)
  deriving DecidableEq, Repr

/-- The next statement of a pass. At `schedule` the clock is read. -/
inductive PassPoint
  | idle
  | configs
  | haveData
  | haveServId
  | haveAm
  | haveAh
  | haveAd
  | haveAl
  | columns
  | createAm
  | createAh
  | createAd
  | createAl
  | schedule
  | jobs (rest : List AggregStmt)
  deriving DecidableEq, Repr

/-- The entry of the data type in `tables`. -/
structure LoadedData where
  texts : TableTexts
  next : Schedule

/-- The tables, the agents and the thread. `data` is the entry once the data type was seen;
`haveAm` to `haveAl` are local variables of the pass. `started` says whether `d$` was there when
the pass began, `clean` whether its statements succeeded so far. -/
structure Setup (col : Collation) where
  recorded : Bool
  d : Option (SampleTable col)
  am : Option AggregTable
  ah : Option AggregTable
  ad : Option AggregTable
  al : Bool
  agents : ℕ → UpdatePoint
  data : Option LoadedData
  point : PassPoint
  haveAm : Bool
  haveAh : Bool
  haveAd : Bool
  haveAl : Bool
  started : Bool
  clean : Bool

/-- What the thread finds when it is started. -/
structure Found (col : Collation) where
  recorded : Bool
  d : Option (SampleTable col)
  am : Option AggregTable
  ah : Option AggregTable
  ad : Option AggregTable
  al : Bool
  announced : d.isSome = true → recorded = true

namespace Setup

variable {col : Collation}

def start (found : Found col) : Setup col where
  recorded := found.recorded
  d := found.d
  am := found.am
  ah := found.ah
  ad := found.ad
  al := found.al
  agents := fun _ => .idle
  data := none
  point := .idle
  haveAm := false
  haveAh := false
  haveAd := false
  haveAl := false
  started := false
  clean := true

/-! ### Statements of a pass -/

/-- A query, whose failure is logged. -/
def query (s : Setup col) (ok : Bool) : Setup col := { s with clean := s.clean && ok }

/-- Whether the server can carry out a statement made of these texts. -/
def accepts (s : Setup col) (texts : TableTexts) (stmt : AggregStmt) : Bool :=
  let columns := texts.columns.getD []
  let has (t : Option AggregTable) := t.any fun t => t.has col texts.idName columns
  let hasId (t : Option AggregTable) := t.any fun t => t.has col texts.idName []
  let takes (t : Option AggregTable) := t.any fun t => t.takes col texts.idName columns
  let d := s.d.any fun d => d.hasColumn texts.idName && columns.all d.hasColumn
  match stmt with
  | .createAm => s.am.isNone && d
  | .createAh => s.ah.isNone && has s.am
  | .createAd => s.ad.isNone && has s.ah
  | .createAl => takes s.ad && takes s.ah && takes s.am && d
  | .baseAm => texts.columns.isSome && d && takes s.am
  | .baseAh => texts.columns.isSome && has s.am && takes s.ah
  | .baseAd => texts.columns.isSome && has s.ah && hasId s.am && takes s.ad
  | .purgeD => s.d.isSome
  | .purgeAm => s.am.isSome
  | .purgeAh => s.ah.isSome
  | .purgeAd => s.ad.isSome

/-- What a statement changes, when it is carried out. -/
def exec (s : Setup col) (texts : TableTexts) (stmt : AggregStmt) : Setup col :=
  let made := some ⟨texts.idName, texts.columns.getD []⟩
  match stmt with
  | .createAm => { s with am := made }
  | .createAh => { s with ah := made }
  | .createAd => { s with ad := made }
  | .createAl => { s with al := true }
  | _ => s

/-- One `myqExec`. -/
def send (s : Setup col) (ok : Bool) (stmt : AggregStmt) : Setup col :=
  match s.data with
  | none => { s with clean := false }
  | some data =>
      if ok && s.accepts data.texts stmt then s.exec data.texts stmt
      else { s with clean := false }

/-- A create is sent where `haveTable` has found nothing. -/
def create (s : Setup col) (haveIt ok : Bool) (stmt : AggregStmt) : Setup col :=
  if haveIt then s else s.send ok stmt

/-- Writes to the entry. -/
def setTexts (s : Setup col) (f : TableTexts → TableTexts) : Setup col :=
  { s with data := s.data.map fun data => { data with texts := f data.texts } }

/-- The columns of `d$` by the query. -/
def queryColumns (s : Setup col) (idName : String) : List String :=
  match s.d with
  | none => []
  | some d => d.selectColumns idName

/-- The `id_name` that `tableHasColumn` leads to. -/
def idNameOf (found : Bool) : String := if found then "serv_id" else "host_id"

section pass

variable (cfg : AggregData) (tbl : String)

/-- The thread takes a step: `ok` is the answer of the server to its statement, `fp` the clock. -/
def pass (s : Setup col) (ok : Bool) (fp : ℚ) : Setup col :=
  match s.point with
  | .idle => { s with point := .configs, started := s.d.isSome, clean := true }
  | .configs =>
      let s := s.query ok
      -- the entry is made before anything is known of the tables
      if ok && s.recorded && s.data.isNone then
        { s with data := some ⟨⟨tbl, "host_id", none, cfg⟩, ⟨0, 0, 0⟩⟩, point := .haveData }
      else { s with point := .schedule }
  | .haveData => { s.query ok with point := if ok && s.d.isSome then .haveServId else .haveAm }
  | .haveServId =>
      let idName := idNameOf (ok && s.d.any fun d => d.hasColumn "serv_id")
      { (s.query ok).setTexts fun texts => { texts with idName := idName } with point := .haveAm }
  | .haveAm => { s.query ok with haveAm := ok && s.am.isSome, point := .haveAh }
  | .haveAh => { s.query ok with haveAh := ok && s.ah.isSome, point := .haveAd }
  | .haveAd => { s.query ok with haveAd := ok && s.ad.isSome, point := .haveAl }
  | .haveAl => { s.query ok with haveAl := ok && s.al, point := .columns }
  | .columns =>
      if ok then
        { s.setTexts fun texts => { texts with columns := some (s.queryColumns texts.idName) } with
          point := .createAm }
      else { s.query ok with point := .schedule }
  | .createAm => { s.create s.haveAm ok .createAm with point := .createAh }
  | .createAh => { s.create s.haveAh ok .createAh with point := .createAd }
  | .createAd => { s.create s.haveAd ok .createAd with point := .createAl }
  | .createAl => { s.create s.haveAl ok .createAl with point := .schedule }
  | .schedule =>
      match s.data with
      | none => { s with point := .jobs [] }
      | some data =>
          { s with
            data := some { data with next := AggregState.reschedule cfg fp data.next }
            point := .jobs (AggregState.lowJobs cfg fp data.next ++
              AggregState.medJobs cfg fp data.next ++ AggregState.highJobs cfg fp data.next) }
  | .jobs [] => { s with point := .idle }
  | .jobs (stmt :: rest) => { s.send ok stmt with point := .jobs rest }

end pass

/-! ### Statements of an update -/

def setAgent (s : Setup col) (i : ℕ) (p : UpdatePoint) : Setup col :=
  { s with agents := Function.update s.agents i p }

/-- An agent takes a step. A resource that could not be inserted has no id to be read, and the
update ends. -/
def agent (s : Setup col) (i : ℕ) (ok : Bool) : Setup col :=
  match s.agents i with
  | .idle => s
  | .record definition =>
      if ok then { s with recorded := true }.setAgent i (.haveTable definition)
      else s.setAgent i .idle
  | .haveTable definition =>
      if ok && s.d.isSome then s.setAgent i (.haveColumn definition.properties)
      else s.setAgent i (.createTable definition)
  | .createTable definition =>
      if ok && s.d.isNone then { s with d := SampleTable.create definition }.setAgent i .idle
      else s.setAgent i .idle
  | .haveColumn [] => s.setAgent i .idle
  | .haveColumn (p :: properties) =>
      if ok && s.d.any fun d => d.hasColumn p.name then s.setAgent i (.haveColumn properties)
      else s.setAgent i (.addColumn p properties)
  | .addColumn p properties =>
      if ok then { s with d := s.d.map (SampleTable.add p) }.setAgent i (.haveColumn properties)
      else s.setAgent i (.haveColumn properties)

end Setup

/-! ### Runs -/

/-- An agent begins an update or takes a step of it, or the thread takes a step. -/
inductive SetupMove
  | updateApi (i : ℕ) (definition : Definition)
  | agent (i : ℕ) (ok : Bool)
  | pass (ok : Bool) (fp : ℚ)

def Setup.move {col : Collation} (cfg : AggregData) (tbl : String) (s : Setup col) :
    SetupMove → Setup col
  | .updateApi i definition =>
      match s.agents i with
      | .idle => s.setAgent i (.record definition)
      | _ => s
  | .agent i ok => s.agent i ok
  | .pass ok fp => s.pass cfg tbl ok fp

/-- The program is restarted: the tables are all that is left. -/
def Setup.restart {col : Collation} (s : Setup col) : Setup col :=
  { s with
    agents := fun _ => .idle
    data := none
    point := .idle
    haveAm := false
    haveAh := false
    haveAd := false
    haveAl := false
    started := false
    clean := true }

end WatchedBack
