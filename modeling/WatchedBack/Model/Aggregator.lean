import WatchedBack.Library.NullAggregates
import WatchedBack.Library.Grouping

/-! The aggregator of one data type: the statements of `statAggregator.cpp` on its four
tables and its view, and the passes that send them. Clock values are UNIX seconds,
timestamps are milliseconds. -/

namespace WatchedBack

open NullAggregates Grouping

/-- Delays in minutes, hours and days; retentions in days, 0 for ever. -/
structure AggregData where
  delayAm : ℕ
  delayAh : ℕ
  delayAd : ℕ
  retentionD : ℕ
  retentionAm : ℕ
  retentionAh : ℕ
  retentionAd : ℕ
  deriving DecidableEq, Repr

/-- A row of a data table: the host or service, the resource, the time, and a value for
each column. -/
structure Row (ι ν : Type) where
  ownerId : ℕ
  resId : ℕ
  timestamp : ℚ
  columns : ι → ν

/-- A row of `d$`. -/
abbrev Sample (ι : Type) := Row ι (Option ℚ)

/-- A row of `am$`, `ah$` or `ad$`. -/
abbrev AggregRow (ι : Type) := Row ι (Aggregate ℚ)

namespace Row

variable {ι ν : Type}

/-- What the statements group and join by. -/
def res (r : Row ι ν) : ℕ × ℕ := (r.ownerId, r.resId)

/-- The primary key. -/
def key (r : Row ι ν) : (ℕ × ℕ) × ℚ := (r.res, r.timestamp)

/-- `floor(timestamp/unit)` -/
def bucket (unit : ℕ) (r : Row ι ν) : ℤ := ⌊r.timestamp / unit⌋

end Row

/-! ### Selecting and grouping -/

section select

variable {ι ν : Type}

/-- The aggregates of a column of `d$`. -/
def colm : List (Option ℚ) → Aggregate ℚ := Aggregate.ofValues

/-- The aggregates of a column of `am$` or `ah$`. -/
def colh : List (Aggregate ℚ) → Aggregate ℚ := Aggregate.merge

/-- One row for each resource and bucket. -/
def aggregate (unit : ℕ) (col : List ν → Aggregate ℚ) (rows : List (Row ι ν)) :
    List (AggregRow ι) :=
  groupBy (fun r => (r.res, r.bucket unit))
    (fun (k : (ℕ × ℕ) × ℤ) group =>
      ⟨k.1.1, k.1.2, k.2 * unit, fun c => col (group.map fun r => r.columns c)⟩) rows

/-- `floor(UNIX_TIMESTAMP(now())/seconds)-delay` -/
def cutoff (now seconds delay : ℕ) : ℤ := (now / seconds : ℕ) - delay

/-- The select of a `create table ... as`. -/
def createSelect (unit : ℕ) (col : List ν → Aggregate ℚ) (before : ℤ) (source : List (Row ι ν)) :
    List (AggregRow ι) :=
  aggregate unit col (source.filter fun r => r.bucket unit < before)

/-- The join `y`: the last timestamp of the resource in the target, and 0 for the resources
that the other table has. -/
def lastAggregated (target : List (AggregRow ι)) (others : List (ℕ × ℕ)) (res : ℕ × ℕ) :
    Option ℚ :=
  (((target.filter fun x : AggregRow ι => x.res = res).map Row.timestamp) ++
    (others.filter fun z => z = res).map fun _ => 0).max?

/-- The select of an `insert into`: buckets after the last one of the resource. -/
def baseSelect (unit : ℕ) (col : List ν → Aggregate ℚ) (before : ℤ) (target : List (AggregRow ι))
    (others : List (ℕ × ℕ)) (source : List (Row ι ν)) : List (AggregRow ι) :=
  aggregate unit col (source.filter fun r => r.bucket unit < before ∧
    (lastAggregated target others r.res).any fun y => y < (r.bucket unit : ℚ) * unit)

def createAm (cfg : AggregData) (now : ℕ) (d : List (Sample ι)) : List (AggregRow ι) :=
  createSelect 60000 colm (cutoff now 60 cfg.delayAm) d

def createAh (cfg : AggregData) (now : ℕ) (am : List (AggregRow ι)) : List (AggregRow ι) :=
  createSelect 3600000 colh (cutoff now 3600 cfg.delayAh) am

def createAd (cfg : AggregData) (now : ℕ) (ah : List (AggregRow ι)) : List (AggregRow ι) :=
  createSelect 86400000 colh (cutoff now 3600 cfg.delayAd) ah

def baseAm (cfg : AggregData) (now : ℕ) (am : List (AggregRow ι)) (d : List (Sample ι)) :
    List (AggregRow ι) :=
  baseSelect 60000 colm (cutoff now 60 cfg.delayAm) am (d.map Row.res) d

def baseAh (cfg : AggregData) (now : ℕ) (ah am : List (AggregRow ι)) : List (AggregRow ι) :=
  baseSelect 3600000 colh (cutoff now 3600 cfg.delayAh) ah (am.map Row.res) am

/-- The other table is `am$` here, too. -/
def baseAd (cfg : AggregData) (now : ℕ) (ad ah am : List (AggregRow ι)) : List (AggregRow ι) :=
  baseSelect 86400000 colh (cutoff now 3600 cfg.delayAd) ad (am.map Row.res) ah

def sec2day : ℕ := 60 * 60 * 24

/-- `delete from ... where timestamp<...` -/
def purge (now retention : ℕ) (rows : List (Row ι ν)) : List (Row ι ν) :=
  rows.filter fun r => ¬ r.timestamp < cutoff now sec2day retention * (sec2day * 1000 : ℕ)

/-! ### The view -/

/-- The oldest timestamp of a resource. -/
def mint (rows : List (Row ι ν)) (res : ℕ × ℕ) : Option ℚ :=
  ((rows.filter fun r : Row ι ν => r.res = res).map Row.timestamp).min?

/-- The rows of a table that the view takes: those newer than the oldest row of the next
finer table. -/
def viewPart (finer : List (Row ι ν)) (rows : List (AggregRow ι)) : List (AggregRow ι) :=
  rows.filter fun r => (mint finer r.res).any fun m => r.timestamp > m

/-- A sample as the view shows it; each of its columns counts once. -/
def Row.raw (r : Sample ι) : AggregRow ι :=
  ⟨r.ownerId, r.resId, r.timestamp, fun c =>
    ⟨r.columns c, r.columns c, r.columns c, r.columns c, 1⟩⟩

end select

/-! ### Statements -/

/-- The tables `d$`, `am$`, `ah$` and `ad$`, and whether the view `all$` exists. -/
structure Tables (ι : Type) where
  d : List (Sample ι)
  am : Option (List (AggregRow ι))
  ah : Option (List (AggregRow ι))
  ad : Option (List (AggregRow ι))
  al : Bool

/-- The select of `create_al`. -/
def Tables.allView {ι : Type} (t : Tables ι) : List (AggregRow ι) :=
  viewPart (t.ah.getD []) (t.ad.getD []) ++ viewPart (t.am.getD []) (t.ah.getD []) ++
    viewPart t.d (t.am.getD []) ++ t.d.map Row.raw

inductive AggregStmt
  | createAm | createAh | createAd | createAl
  | baseAm | purgeD | baseAh | purgeAm | baseAd | purgeAh | purgeAd
  deriving DecidableEq, Repr

section exec

variable {ι : Type} (cfg : AggregData) (now : ℕ)

/-- The rows that a statement selects to be inserted. -/
def AggregStmt.selected (t : Tables ι) : AggregStmt → List (AggregRow ι)
  | createAm => WatchedBack.createAm cfg now t.d
  | createAh => WatchedBack.createAh cfg now (t.am.getD [])
  | createAd => WatchedBack.createAd cfg now (t.ah.getD [])
  | baseAm => WatchedBack.baseAm cfg now (t.am.getD []) t.d
  | baseAh => WatchedBack.baseAh cfg now (t.ah.getD []) (t.am.getD [])
  | baseAd => WatchedBack.baseAd cfg now (t.ad.getD []) (t.ah.getD []) (t.am.getD [])
  | _ => []

/-- An insert that meets a key of the table, or one key twice, fails. -/
def insertRows (table rows : List (AggregRow ι)) : Option (List (AggregRow ι)) :=
  if ((table ++ rows).map Row.key).Nodup then some (table ++ rows) else none

/-- The tables after a statement that the server carries out; it rejects one that creates
what exists, or reads or writes what does not. -/
def Tables.exec (t : Tables ι) (stmt : AggregStmt) : Option (Tables ι) :=
  match stmt with
  | .createAm => if t.am.isNone then some { t with am := some (stmt.selected cfg now t) } else none
  | .createAh =>
      if t.ah.isNone ∧ t.am.isSome then some { t with ah := some (stmt.selected cfg now t) } else none
  | .createAd =>
      if t.ad.isNone ∧ t.ah.isSome then some { t with ad := some (stmt.selected cfg now t) } else none
  | .createAl =>
      if t.am.isSome ∧ t.ah.isSome ∧ t.ad.isSome then some { t with al := true } else none
  | .baseAm => do
      let am ← t.am
      return { t with am := some (← insertRows am (stmt.selected cfg now t)) }
  | .baseAh => do
      let ah ← t.ah
      let _ ← t.am
      return { t with ah := some (← insertRows ah (stmt.selected cfg now t)) }
  | .baseAd => do
      let ad ← t.ad
      let _ ← t.ah
      let _ ← t.am
      return { t with ad := some (← insertRows ad (stmt.selected cfg now t)) }
  | .purgeD => some { t with d := purge now cfg.retentionD t.d }
  | .purgeAm => do return { t with am := some (purge now cfg.retentionAm (← t.am)) }
  | .purgeAh => do return { t with ah := some (purge now cfg.retentionAh (← t.ah)) }
  | .purgeAd => do return { t with ad := some (purge now cfg.retentionAd (← t.ad)) }

end exec

/-- A statement that was sent, the clock and the tables it met, and whether it was done. -/
structure Executed (ι : Type) where
  stmt : AggregStmt
  now : ℕ
  before : Tables ι
  done : Bool

/-- When the jobs of each level are due next, in milliseconds. -/
structure Schedule where
  nextLow : ℚ
  nextMed : ℚ
  nextHigh : ℚ

/-- `data` is the entry of the data type in `tables`, once a pass has loaded it. -/
structure AggregState (ι : Type) where
  tables : Tables ι
  data : Option Schedule
  log : List (Executed ι)

/-! ### Passes -/

namespace AggregState

variable {ι : Type} (cfg : AggregData) (ok : AggregStmt → Bool) (fp : ℚ) (now : ℕ)

/-- No sample yet, and no table but `d$`. -/
def initial (ι : Type) : AggregState ι :=
  ⟨⟨[], none, none, none, false⟩, none, []⟩

/-- One `myqExec`; `ok` says which statements of the pass the server can carry out. -/
def send (s : AggregState ι) (stmt : AggregStmt) : AggregState ι × Bool :=
  match if ok stmt then s.tables.exec cfg now stmt else none with
  | some t => ({ s with tables := t, log := s.log ++ [⟨stmt, now, s.tables, true⟩] }, true)
  | none => ({ s with log := s.log ++ [⟨stmt, now, s.tables, false⟩] }, false)

/-- A statement appended to the query of the pass. The text of one that failed is still in
front of it, and then it fails, too. -/
def append (p : AggregState ι × Bool) (stmt : AggregStmt) : AggregState ι × Bool :=
  if p.2 then p.1.send cfg ok now stmt
  else ({ p.1 with log := p.1.log ++ [⟨stmt, now, p.1.tables, false⟩] }, false)

/-- Sends the statement that creates a table or the view where it is missing. -/
def create (haveIt : Bool) (stmt : AggregStmt) (s : AggregState ι) : AggregState ι :=
  if haveIt then s else (s.send cfg ok now stmt).1

/-- A data type that is first seen. -/
def load (s : AggregState ι) : AggregState ι :=
  if s.data.isSome then s
  else
    let haveAm := s.tables.am.isSome
    let haveAh := s.tables.ah.isSome
    let haveAd := s.tables.ad.isSome
    let haveAl := s.tables.al
    let s := create cfg ok now haveAm .createAm s
    let s := create cfg ok now haveAh .createAh s
    let s := create cfg ok now haveAd .createAd s
    let s := create cfg ok now haveAl .createAl s
    { s with data := some ⟨0, 0, 0⟩ }

def lowJobs (next : Schedule) : List AggregStmt :=
  if next.nextLow < fp then
    .baseAm :: if 0 < cfg.retentionD then [.purgeD] else []
  else []

def medJobs (next : Schedule) : List AggregStmt :=
  if next.nextMed < fp then
    .baseAh :: if 0 < cfg.retentionAm then [.purgeAm] else []
  else []

def highJobs (next : Schedule) : List AggregStmt :=
  if next.nextHigh < fp then
    .baseAd :: (if 0 < cfg.retentionAh then [.purgeAh] else []) ++
      if 0 < cfg.retentionAd then [.purgeAd] else []
  else []

def reschedule (next : Schedule) : Schedule where
  nextLow := if next.nextLow < fp then fp + cfg.delayAm * 60000 else next.nextLow
  nextMed := if next.nextMed < fp then fp + 3600000 else next.nextMed
  nextHigh := if next.nextHigh < fp then fp + 12 * 3600000 else next.nextHigh

/-- One round of the thread: `fp` is its own clock, in milliseconds. -/
def pass (s : AggregState ι) : AggregState ι :=
  let s := s.load cfg ok now
  match s.data with
  | none => s
  | some next =>
      let jobs := lowJobs cfg fp next ++ medJobs cfg fp next ++ highJobs cfg fp next
      let p := jobs.foldl (append cfg ok now) (s, true)
      { p.1 with data := some (reschedule cfg fp next) }

end AggregState

/-! ### Runs -/

/-- `insert into d$... ON DUPLICATE KEY UPDATE` -/
def insertSample {ι : Type} (d : List (Sample ι)) (row : Sample ι) : List (Sample ι) :=
  if row.key ∈ d.map Row.key then d.map fun r => if r.key = row.key then row else r
  else d ++ [row]

/-- What happens to a data type: a sample is stored, a pass runs, or the program is restarted. -/
inductive AggregAction (ι : Type)
  | sample (row : Sample ι)
  | pass (fp : ℚ) (now : ℕ) (ok : AggregStmt → Bool)
  | restart

namespace AggregState

variable {ι : Type} (cfg : AggregData)

def step (s : AggregState ι) : AggregAction ι → AggregState ι
  | .sample row => { s with tables := { s.tables with d := insertSample s.tables.d row } }
  | .pass fp now ok => s.pass cfg ok fp now
  | .restart => { s with data := none }

def run (actions : List (AggregAction ι)) : AggregState ι :=
  actions.foldl (step cfg) (initial ι)

end AggregState

end WatchedBack
