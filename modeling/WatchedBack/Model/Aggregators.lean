import WatchedBack.Model.Aggregator

/-! The aggregators of any number of backends on the tables of one data type: each thread is cut
at its statements, and the backends take turns in any order. Every backend reads
`c$data_configs` for itself. -/

namespace WatchedBack

/-! ### One thread -/

/-- The entry of the data type in `tables`: the row that was read when the texts of the inserts
were written, the row that was read last, and when the jobs are due. -/
structure ThreadEntry where
  texts : AggregData
  config : AggregData
  next : Schedule

/-- The numbers in the statements: the delays are those of the texts, the retentions are written
out when a purge is sent. -/
def ThreadEntry.sent (e : ThreadEntry) : AggregData :=
  { e.config with
    delayAm := e.texts.delayAm
    delayAh := e.texts.delayAh
    delayAd := e.texts.delayAd }

/-- Where a thread is in its round. -/
inductive AggregPoint
  /-- The objects that `haveTable` is still to be asked for, and those that were not there. -/
  | looking (todo missing : List AggregStmt)
  /-- The creates that are still to be sent. -/
  | creating (todo : List AggregStmt)
  /-- The jobs that are still to be sent, and whether those before them were done. -/
  | working (todo : List AggregStmt) (clean : Bool)
  deriving DecidableEq, Repr

structure AggregThread where
  entry : Option ThreadEntry
  point : AggregPoint

/-- A thread that has just been started; between two rounds the point is the same. -/
def AggregThread.started : AggregThread := ⟨none, .working [] true⟩

/-- Whether the object that a statement creates is there. -/
def Tables.have {ι : Type} (t : Tables ι) : AggregStmt → Bool
  | .createAm => t.am.isSome
  | .createAh => t.ah.isSome
  | .createAd => t.ad.isSome
  | .createAl => t.al
  | _ => true

/-! ### All of them -/

/-- The tables, the threads of the backends, and the statements in the order in which they
reached the server. -/
structure Aggregators (ι : Type) where
  tables : Tables ι
  threads : ℕ → AggregThread
  log : List (Executed ι)

/-- What happens next. -/
inductive AggregMove (ι : Type)
  /-- A collector stores a sample. -/
  | sample (row : Sample ι)
  /-- A round begins; there is no row if the query fails or does not list the data type. -/
  | read (backend : ℕ) (row : Option AggregData)
  /-- The next query of `haveTable`. -/
  | look (backend : ℕ) (ok : Bool)
  /-- The clock is read and the jobs are looked through. -/
  | start (backend : ℕ) (fp : ℚ)
  /-- The next create or job reaches the server, whose clock shows `now`. -/
  | send (backend now : ℕ) (ok : Bool)
  /-- The program is restarted. -/
  | restart (backend : ℕ)

namespace Aggregators

variable {ι : Type}

def initial (ι : Type) : Aggregators ι :=
  ⟨⟨[], none, none, none, false⟩, fun _ => .started, []⟩

def setThread (s : Aggregators ι) (b : ℕ) (th : AggregThread) : Aggregators ι :=
  { s with threads := Function.update s.threads b th }

/-- A statement at the server, and whether it was done. -/
def exec (s : Aggregators ι) (cfg : AggregData) (now : ℕ) (ok : Bool) (stmt : AggregStmt) :
    Aggregators ι × Bool :=
  match if ok then s.tables.exec cfg now stmt else none with
  | some t => ({ s with tables := t, log := s.log ++ [⟨stmt, now, s.tables, true⟩] }, true)
  | none => ({ s with log := s.log ++ [⟨stmt, now, s.tables, false⟩] }, false)

/-- The text of a statement that failed is still in front of those that follow it. -/
def send (s : Aggregators ι) (b now : ℕ) (ok : Bool) : Aggregators ι :=
  match (s.threads b).entry, (s.threads b).point with
  | some e, .creating (stmt :: rest) =>
      (s.exec e.sent now ok stmt).1.setThread b ⟨some e, .creating rest⟩
  | some e, .working (stmt :: rest) clean =>
      let p := s.exec e.sent now (clean && ok) stmt
      p.1.setThread b ⟨some e, .working rest p.2⟩
  | _, _ => s

/-- An entry that is there keeps its texts. -/
def read (s : Aggregators ι) (b : ℕ) (row : Option AggregData) : Aggregators ι :=
  match (s.threads b).point, row, (s.threads b).entry with
  | .working [] _, none, entry => s.setThread b ⟨entry, .creating []⟩
  | .working [] _, some cfg, some e => s.setThread b ⟨some { e with config := cfg }, .creating []⟩
  | .working [] _, some cfg, none =>
      s.setThread b ⟨some ⟨cfg, cfg, ⟨0, 0, 0⟩⟩,
        .looking [.createAm, .createAh, .createAd, .createAl] []⟩
  | _, _, _ => s

/-- A query of `haveTable` that fails answers no. -/
def look (s : Aggregators ι) (b : ℕ) (ok : Bool) : Aggregators ι :=
  match (s.threads b).point with
  | .looking (stmt :: rest) missing =>
      let missing := if ok && s.tables.have stmt then missing else missing ++ [stmt]
      s.setThread b ⟨(s.threads b).entry,
        if rest.isEmpty then .creating missing else .looking rest missing⟩
  | _ => s

def start (s : Aggregators ι) (b : ℕ) (fp : ℚ) : Aggregators ι :=
  match (s.threads b).point, (s.threads b).entry with
  | .creating [], some e =>
      s.setThread b ⟨some { e with next := AggregState.reschedule e.config fp e.next },
        .working (AggregState.lowJobs e.config fp e.next ++ AggregState.medJobs e.config fp e.next ++
          AggregState.highJobs e.config fp e.next) true⟩
  | .creating [], none => s.setThread b ⟨none, .working [] true⟩
  | _, _ => s

def step (s : Aggregators ι) : AggregMove ι → Aggregators ι
  | .sample row => { s with tables := { s.tables with d := insertSample s.tables.d row } }
  | .read b row => s.read b row
  | .look b ok => s.look b ok
  | .start b fp => s.start b fp
  | .send b now ok => s.send b now ok
  | .restart b => s.setThread b .started

def run (moves : List (AggregMove ι)) : Aggregators ι := moves.foldl step (initial ι)

end Aggregators

end WatchedBack
