import WatchedBack.Library.Rounding
import Std.Data.ExtTreeMap

/-! The event tables `h$res_events`, `s$res_events`, `h$event_factory` and
`s$event_factory`, and the statements that the resource clients send to them. -/

namespace WatchedBack

/-- A rule of the factory, and the event that is open while its condition holds.
The comparison `operator==` is equality of the four fields. -/
structure ResEvent where
  eventType : ℕ
  property : String
  oper : Char
  value : ℚ
  deriving DecidableEq, Repr

/-- A value of a `double(20,4)` column: a whole number of ten-thousandths. -/
structure Column where
  ticks : ℤ
  deriving DecidableEq, Repr

namespace Column

def toRat (c : Column) : ℚ := c.ticks / 10 ^ 4

/-- Storing rounds to the nearest ten-thousandth, away from zero when halfway. -/
def ofRat (x : ℚ) : Column :=
  ⟨if 0 ≤ x then ⌊x * 10 ^ 4 + 1 / 2⌋ else ⌈x * 10 ^ 4 - 1 / 2⌉⟩

/-- What a column holds is stored again unchanged. -/
@[simp] theorem ofRat_toRat (c : Column) : ofRat c.toRat = c := by
  obtain ⟨n⟩ := c
  have hmul : (n : ℚ) / 10 ^ 4 * 10 ^ 4 = n := by
    rw [div_mul_cancel₀]
    norm_num
  unfold ofRat toRat
  rw [hmul]
  congr 1
  split
  · rw [Int.floor_eq_iff]
    constructor <;> linarith
  · rw [Int.ceil_eq_iff]
    constructor <;> linarith

end Column

/-- A row of `h$res_events` or `s$res_events`; `ownerId` is its `host_id` or `serv_id`. -/
structure EventRow where
  id : ℕ
  ownerId : ℕ
  resId : ℕ
  startTime : Column
  endTime : Option Column
  eventType : ℕ
  property : String
  currentValue : Column
  oper : Char
  value : Column
  deriving DecidableEq, Repr

/-- The rule fields of a row, as `init` reads them back. -/
def EventRow.event (row : EventRow) : ResEvent :=
  ⟨row.eventType, row.property, row.oper, row.value.toRat⟩

/-- The row that the insert of a new event writes. -/
def EventRow.opened (id ownerId resId : ℕ) (startTime : ℚ) (event : ResEvent)
    (currentValue : ℚ) : EventRow where
  id := id
  ownerId := ownerId
  resId := resId
  startTime := Column.ofRat startTime
  endTime := none
  eventType := event.eventType
  property := event.property
  currentValue := Column.ofRat currentValue
  oper := event.oper
  value := Column.ofRat event.value

/-- A table of events: `id` is its primary key. -/
structure EventTable where
  rows : List EventRow
  keyed : (rows.map EventRow.id).Nodup

/-- A row of `h$event_factory` or `s$event_factory`; a null selects everything. -/
structure FactoryRow where
  ownerId : Option ℕ
  resId : Option ℕ
  resType : Option String
  eventType : ℕ
  property : String
  oper : Char
  value : Column
  deriving DecidableEq, Repr

def FactoryRow.event (row : FactoryRow) : ResEvent :=
  ⟨row.eventType, row.property, row.oper, row.value.toRat⟩

structure Database where
  hResEvents : EventTable
  sResEvents : EventTable
  hEventFactory : List FactoryRow
  sEventFactory : List FactoryRow

namespace Database

/-- The table `typed + "res_events"`. -/
def resEvents (db : Database) (isService : Bool) : EventTable :=
  if isService then db.sResEvents else db.hResEvents

/-- The table `typed + "event_factory"`. -/
def eventFactory (db : Database) (isService : Bool) : List FactoryRow :=
  if isService then db.sEventFactory else db.hEventFactory

def setResEvents (db : Database) (isService : Bool) (table : EventTable) : Database :=
  if isService then { db with sResEvents := table } else { db with hResEvents := table }

@[simp] theorem resEvents_setResEvents (db : Database) (isService : Bool) (table : EventTable) :
    (db.setResEvents isService table).resEvents isService = table := by
  cases isService <;> rfl

@[simp] theorem eventFactory_setResEvents (db : Database) (isService other : Bool)
    (table : EventTable) :
    (db.setResEvents isService table).eventFactory other = db.eventFactory other := by
  cases isService <;> cases other <;> rfl

end Database

/-! ### Statements -/

/-- The statements of `parse` on the event tables. -/
inductive EventStmt
  | insertEvent (ownerId resId : ℕ) (startTime : ℚ) (event : ResEvent) (currentValue : ℚ)
  | setCurrentValue (id : ℕ) (currentValue : ℚ)
  | setEndTime (id : ℕ) (endTime : ℚ)
  deriving DecidableEq, Repr

/-- What the server makes of a statement: it fails, or it is carried out, an insert
under the given `auto_increment` id. -/
inductive Answer
  | failed
  | ok (id : ℕ)
  deriving DecidableEq, Repr

namespace EventTable

def ids (table : EventTable) : List ℕ := table.rows.map EventRow.id

/-- An insert under an id that is taken violates the primary key and fails. -/
def insert (table : EventTable) (row : EventRow) : Option EventTable :=
  if h : row.id ∈ table.ids then none
  else some ⟨table.rows ++ [row], by
    rw [List.map_append, List.nodup_append]
    refine ⟨table.keyed, by simp, ?_⟩
    intro a ha b hb
    simp only [List.map_cons, List.map_nil, List.mem_singleton] at hb
    subst hb
    exact fun heq => h (heq ▸ ha)⟩

/-- An update of the row with the given id; `change` leaves the id alone. -/
def update (table : EventTable) (id : ℕ) (change : EventRow → EventRow)
    (hid : ∀ row, (change row).id = row.id) : EventTable :=
  ⟨table.rows.map fun row => if row.id = id then change row else row, by
    have hids : EventRow.id ∘ (fun row => if row.id = id then change row else row) =
        EventRow.id := by
      funext row
      simp only [Function.comp_apply]
      split
      · exact hid row
      · rfl
    rw [List.map_map, hids]
    exact table.keyed⟩

/-- `myqExec`: the table after the statement, and what `insert_id()` returns then. -/
def exec (table : EventTable) (stmt : EventStmt) (answer : Answer) : EventTable × ℕ :=
  match answer with
  | .failed => (table, 0)
  | .ok id =>
      match stmt with
      | .insertEvent ownerId resId startTime event currentValue =>
          match table.insert (EventRow.opened id ownerId resId startTime event currentValue) with
          | some table' => (table', id)
          | none => (table, 0)
      | .setCurrentValue rowId currentValue =>
          (table.update rowId (fun row => { row with currentValue := Column.ofRat currentValue })
            (fun _ => rfl), 0)
      | .setEndTime rowId endTime =>
          (table.update rowId (fun row => { row with endTime := some (Column.ofRat endTime) })
            (fun _ => rfl), 0)

end EventTable

end WatchedBack
