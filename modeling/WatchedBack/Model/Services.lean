import WatchedBack.Model.Json

/-! The tables of hosts, services and event types, and the lookups of `dbTools.cpp`. -/

namespace WatchedBack

/-- When the server takes two names for equal. -/
structure Collation where
  same : String → String → Bool
  refl : ∀ a, same a a = true
  symm : ∀ {a b}, same a b = true → same b a = true
  trans : ∀ {a b c}, same a b = true → same b c = true → same a c = true

/-- Names are equal to the byte. -/
def Collation.binary : Collation where
  same a b := a = b
  refl _ := decide_eq_true rfl
  symm h := decide_eq_true (of_decide_eq_true h).symm
  trans h h' := decide_eq_true ((of_decide_eq_true h).trans (of_decide_eq_true h'))

/-- A row of `h$hosts`, `s$types` or `c$event_types`. -/
structure NameRow where
  id : ℕ
  name : String
  deriving DecidableEq, Repr

structure ServiceRow where
  id : ℕ
  hostId : ℕ
  typeId : Option ℕ
  name : String
  deriving DecidableEq, Repr

structure LogRow where
  servId : ℕ
  timestamp : ℚ
  eventType : ℕ
  sourceName : String
  dateField : String
  lineNo : ℤ
  text : String
  deriving DecidableEq, Repr

structure ProcessRow where
  servId : ℕ
  name : String
  fullPath : String
  cwd : String
  username : String
  pid : ℤ
  status : String
  timestamp : ℚ
  deriving DecidableEq, Repr

structure SocketRow where
  servId : ℕ
  name : String
  status : String
  timestamp : ℚ
  deriving DecidableEq, Repr

structure HistoryRow where
  servId : ℕ
  timestamp : ℚ
  failed : ℕ
  missing : ℕ
  ok : ℕ
  deriving DecidableEq, Repr

structure ServiceTables where
  hosts : List NameRow
  types : List NameRow
  eventTypes : List NameRow
  services : List ServiceRow
  logEvents : List LogRow
  process : List ProcessRow
  sockets : List SocketRow
  history : List HistoryRow

def noServices : ServiceTables := ⟨[], [], [], [], [], [], [], []⟩

/-! ### Names -/

/-- `auto_increment` -/
def nextId (ids : List ℕ) : ℕ := ids.foldl max 0 + 1

theorem le_foldl_max {n : ℕ} {ids : List ℕ} {start : ℕ} (h : n ∈ ids ∨ n ≤ start) :
    n ≤ ids.foldl max start := by
  induction ids generalizing start with
  | nil => simpa using h
  | cons m ids ih =>
      apply ih
      rcases h with h | h
      · rcases List.mem_cons.mp h with rfl | h
        · exact Or.inr (le_max_right _ _)
        · exact Or.inl h
      · exact Or.inr (le_trans h (le_max_left _ _))

theorem nextId_notMem (ids : List ℕ) : nextId ids ∉ ids := fun h =>
  absurd (le_foldl_max (Or.inl h)) (Nat.not_succ_le_self _)

/-- Looks a name up, inserts it under a new id if it is missing, and selects its id. -/
def getName (found : NameRow → Bool) (name : String) (newId : ℕ) (rows : List NameRow) :
    List NameRow × ℕ :=
  let rows := if rows.any found then rows else rows ++ [⟨newId, name⟩]
  (rows, ((rows.find? found).map NameRow.id).getD 0)

section lookups

variable (col : Collation)

def getHost (name : String) (newId : ℕ) (hosts : List NameRow) : List NameRow × ℕ :=
  getName (fun row => col.same row.name name) name newId hosts

def getServiceType (name : String) (newId : ℕ) (types : List NameRow) : List NameRow × ℕ :=
  getName (fun row => col.same row.name name) name newId types

def lower (s : String) : String := String.ofList (s.toList.map Char.toLower)

/-- `lower(name)=lower(...)` -/
def isEventType (name : String) (row : NameRow) : Bool := col.same (lower row.name) (lower name)

def getEventType (name : String) (newId : ℕ) (eventTypes : List NameRow) : List NameRow × ℕ :=
  getName (isEventType col name) name newId eventTypes

def getService (hostId : ℕ) (name : String) (newId : ℕ) (services : List ServiceRow) :
    List ServiceRow × ℕ :=
  let found := fun row : ServiceRow => row.hostId = hostId ∧ col.same row.name name
  let services :=
    if services.any found then services else services ++ [⟨newId, hostId, none, name⟩]
  (services, ((services.find? found).map ServiceRow.id).getD 0)

/-- The seed of `c$event_types`. -/
def seedEventTypes : List NameRow :=
  [⟨1, "Critical"⟩, ⟨2, "Error"⟩, ⟨3, "Warning"⟩, ⟨4, "Notice"⟩, ⟨5, "Information"⟩]

namespace ServiceTables

variable (t : ServiceTables)

def isLogEvent (servId : ℕ) (source : String) (lineNo : ℤ) (date : String) (row : LogRow) : Bool :=
  row.servId = servId ∧ col.same row.sourceName source ∧ row.lineNo = lineNo ∧
    col.same row.dateField date

def haveLogEvent (servId : ℕ) (source : String) (lineNo : ℤ) (date : String) : Bool :=
  t.logEvents.any (isLogEvent col servId source lineNo date)

def haveProcessStatus (servId : ℕ) (name status : String) : Bool :=
  t.process.any fun row =>
    row.servId = servId ∧ col.same row.name name ∧ col.same row.status status

def haveSocketStatus (servId : ℕ) (name status : String) : Bool :=
  t.sockets.any fun row =>
    row.servId = servId ∧ col.same row.name name ∧ col.same row.status status

/-! ### Statements -/

/-- `insert ... ON DUPLICATE KEY UPDATE` -/
def upsert {α : Type} (sameKey : α → Bool) (change : α → α) (row : α) (rows : List α) : List α :=
  if rows.any sameKey then rows.map fun r => if sameKey r then change r else r else rows ++ [row]

def insertLog (row : LogRow) : ServiceTables :=
  { t with
    logEvents := upsert (isLogEvent col row.servId row.sourceName row.lineNo row.dateField)
        (fun r => { r with text := row.text }) row t.logEvents }

def insertProcess (row : ProcessRow) : ServiceTables :=
  { t with
    process := upsert (fun r : ProcessRow => r.servId = row.servId ∧ col.same r.name row.name)
        (fun r => { row with servId := r.servId, name := r.name }) row t.process }

def insertSocket (row : SocketRow) : ServiceTables :=
  { t with
    sockets := upsert (fun r : SocketRow => r.servId = row.servId ∧ col.same r.name row.name)
        (fun r => { row with servId := r.servId, name := r.name }) row t.sockets }

def updateType (servId typeId : ℕ) : ServiceTables :=
  { t with services :=
      t.services.map fun r => if r.id = servId then { r with typeId := some typeId } else r }

def insertHistory (row : HistoryRow) : ServiceTables :=
  { t with
    history := upsert (fun r : HistoryRow => r.servId = row.servId ∧ r.timestamp = row.timestamp)
        (fun r => { r with failed := row.failed, ok := row.ok }) row t.history }

/-- The services of a host without a row from the time on, with the number of their
processes and sockets as missing. -/
def insertMissing (hostId : ℕ) (timestamp : ℚ) : ServiceTables :=
  let late := t.services.filter fun s => s.hostId = hostId ∧
    ¬ t.history.any fun r => r.servId = s.id ∧ timestamp ≤ r.timestamp
  { t with history := t.history ++ late.map fun s =>
      ⟨s.id, timestamp, 0, t.process.countP (fun r => r.servId = s.id) +
        t.sockets.countP (fun r => r.servId = s.id), 0⟩ }

def getServiceName (hostId servId : ℕ) : String :=
  ((t.services.find? fun s => s.hostId = hostId ∧ s.id = servId).map ServiceRow.name).getD ""

def getServiceHost (servId : ℕ) : ℕ :=
  ((t.services.find? fun s => s.id = servId).map ServiceRow.hostId).getD 0

def getHostName (hostId : ℕ) : String :=
  ((t.hosts.find? fun h => h.id = hostId).map NameRow.name).getD ""

end ServiceTables

end lookups

end WatchedBack
