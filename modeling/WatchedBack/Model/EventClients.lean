import WatchedBack.Model.Ressource

/-! Any number of resource clients, of one backend or of several, on the same event tables, cut
at their statements. -/

namespace WatchedBack

/-- Where a client stands: at rest, before the second query of `init`, or in `parse` before a
rule of the opening loop, an event of the closing loop, or the insert of the sample. -/
inductive ParsePoint
  | idle
  | factory
  | opening (line : Json) (rules : List ResEvent) (lines : List Json)
  | closing (line : Json) (entries : List (ℕ × ResEvent)) (lines : List Json)
  | storing (line : Json) (lines : List Json)

/-- The head of the loop over the lines. -/
def ParsePoint.ofLines (c : RessourceClient) : List Json → ParsePoint
  | [] => .idle
  | line :: lines => .opening line c.eventFactory lines

structure EventClient where
  client : RessourceClient
  point : ParsePoint

/-- The database, the statements and alerts of all clients in the order of their sending, and the
clients. -/
structure EventClients where
  db : Database
  log : List (EventStmt × Answer)
  alerts : List Alert
  inserts : List SampleInsert
  clients : ℕ → Option EventClient

/-- A client is made and sends the first query of `init`, it is given data, or it goes on to its
next statement. -/
inductive ClientMove
  | init (client : ℕ) (c : RessourceClient)
  | parse (client : ℕ) (data : Json)
  | step (client : ℕ)

namespace EventClients

/-- No client is bound yet. -/
def start (db : Database) : EventClients := ⟨db, [], [], [], fun _ => none⟩

def put (s : EventClients) (n : ℕ) (c : RessourceClient) (point : ParsePoint) : EventClients :=
  { s with clients := Function.update s.clients n (some ⟨c, point⟩) }

/-- What a client finds when it goes on. -/
def view (s : EventClients) (c : RessourceClient) : ParseState :=
  ⟨c.currentEvents, s.db, s.log, s.alerts, s.inserts⟩

/-- What a client leaves behind. -/
def adopt (s : EventClients) (n : ℕ) (c : RessourceClient) (point : ParsePoint) (p : ParseState) :
    EventClients where
  db := p.db
  log := p.log
  alerts := p.alerts
  inserts := p.inserts
  clients := Function.update s.clients n (some ⟨{ c with currentEvents := p.currentEvents }, point⟩)

/-- An exception ends `parse` where it stands. -/
def proceed (s : EventClients) (n : ℕ) (c : RessourceClient) (point : ParsePoint) :
    Except Fault ParseState → EventClients
  | .ok p => s.adopt n c point p
  | .error _ => s.put n c .idle

/-- The next statement of a client, or the next head of a loop. The answer to the `n`-th
statement of all is `answers n`. -/
def step (answers : ℕ → Answer) (s : EventClients) (n : ℕ) (c : RessourceClient) :
    ParsePoint → EventClients
  | .idle => s
  | .factory => s.put n (c.loadFactory s.db) .idle
  | .opening line [] lines => s.put n c (.closing line c.currentEvents.toList lines)
  | .opening line (e :: rules) lines =>
      s.proceed n c (.opening line rules lines) (openEvent c answers line (s.view c) e)
  | .closing line [] lines => s.put n c (.storing line lines)
  | .closing line (entry :: entries) lines =>
      s.proceed n c (.closing line entries lines) (closeEvent c answers line (s.view c) entry)
  | .storing line lines => s.proceed n c (.ofLines c lines) (storeSample c line (s.view c))

/-- A client is made anew or given data only when it is at rest. -/
def move (answers : ℕ → Answer) (s : EventClients) : ClientMove → EventClients
  | .init n c =>
      match s.clients n with
      | none | some ⟨_, .idle⟩ =>
          s.put n ({ c with currentEvents := ∅, eventFactory := [] }.loadEvents s.db) .factory
      | some _ => s
  | .parse n data =>
      match s.clients n with
      | some ⟨c, .idle⟩ => s.put n c (.ofLines c data.elements)
      | _ => s
  | .step n =>
      match s.clients n with
      | some ⟨c, point⟩ => s.step answers n c point
      | none => s

end EventClients

end WatchedBack
