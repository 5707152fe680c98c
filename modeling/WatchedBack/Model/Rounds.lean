import WatchedBack.Model.Collect

/-! Rounds of `collect` of several agents on common tables: the loops over the services cut at
their statements, and the statements of the agents in any order. -/

namespace WatchedBack

/-! ### The steps of a round -/

/-- What a round does at one point: a lookup, a statement with the query before it, or an alert. -/
inductive Step
  | lookup (service : String × Json)
  | log (entry : Json)
  | sendLog
  | process (p : Json)
  | socket (p : Json)
  | sendService (service : String × Json)
  | updateType
  | history
  | known
  | missing
  deriving Repr

/-- The local variables of a round. -/
structure Locals where
  hosts : List ℕ
  sent : ℕ
  alerts : List ServiceAlert
  hostId : ℕ
  servId : ℕ
  typeId : ℕ
  text : String
  maxlvl : ℕ
  failed : ℕ
  nfailed : ℕ
  ok : ℕ

def Locals.start : Locals := ⟨[], 0, [], 0, 0, 0, "", 0, 0, 0, 0⟩

namespace Locals

variable (l : Locals) (t : ServiceTables)

def round : Round := ⟨t, l.sent, l.alerts⟩

def logScan : LogScan := ⟨l.round t, l.text, l.maxlvl⟩

def statusScan : StatusScan := ⟨l.round t, l.failed, l.nfailed, l.ok⟩

def ofRound (r : Round) : Locals × ServiceTables :=
  ({ l with sent := r.sent, alerts := r.alerts }, r.tables)

def ofLogScan (s : LogScan) : Locals × ServiceTables :=
  ({ l with
      sent := s.round.sent
      alerts := s.round.alerts
      text := s.text
      maxlvl := s.maxlvl }, s.round.tables)

def ofStatusScan (s : StatusScan) : Locals × ServiceTables :=
  ({ l with
      sent := s.round.sent
      alerts := s.round.alerts
      failed := s.failed
      nfailed := s.nfailed
      ok := s.ok }, s.round.tables)

end Locals

section steps

variable (col : Collation) (carried : ℕ → Bool) (fp : ℚ)

/-- The lookups of a service. The counters start again. Of two agents that insert a name at once,
the unique index rejects one, and its select then finds the row of the other. -/
def lookupService (service : String × Json) (l : Locals) (t : ServiceTables) :
    Except Fault (Locals × ServiceTables) := do
  let v := service.2
  let host ← (← (← v.member "logs").member "host").asString
  let (hosts, hostId) := getHost col host (nextId (t.hosts.map NameRow.id)) t.hosts
  let (services, servId) :=
    getService col hostId service.1 (nextId (t.services.map ServiceRow.id)) t.services
  let type ← (← (← (← v.member "status").member "properties").member "type").asString
  let (types, typeId) := getServiceType col type (nextId (t.types.map NameRow.id)) t.types
  return (⟨hostId :: l.hosts, l.sent, l.alerts, hostId, servId, typeId, "", 0, 0, 0, 0⟩,
    { t with hosts := hosts, services := services, types := types })

def Step.exec (l : Locals) (t : ServiceTables) : Step → Except Fault (Locals × ServiceTables)
  | .lookup service => lookupService col service l t
  | .log entry => do
      return l.ofLogScan (← collectLog col carried l.servId (l.logScan t) entry)
  | .sendLog =>
      .ok ({ l with alerts :=
        if 0 < l.maxlvl then l.alerts ++ [.log l.hostId l.servId l.maxlvl l.text] else l.alerts }, t)
  | .process p => do
      return l.ofStatusScan (← collectProcess col carried fp l.servId (l.statusScan t) p)
  | .socket p => do
      return l.ofStatusScan (← collectSocket col carried fp l.servId (l.statusScan t) p)
  | .sendService service => do
      if 0 < l.nfailed then
        let msg := "Service " ++ service.1 ++ " on " ++
          (← (← service.2.member "host").asString) ++ " have " ++ toString l.failed ++
          " failed componant"
        return ({ l with alerts := l.alerts ++ [.service l.hostId l.servId msg] }, t)
      else
        return (l, t)
  | .updateType => .ok (l.ofRound ((l.round t).exec carried fun t => t.updateType l.servId l.typeId))
  | .history =>
      .ok (l.ofRound ((l.round t).exec carried fun t =>
        t.insertHistory ⟨l.servId, fp, l.failed, 0, l.ok⟩))
  -- the set of hosts, in the order of its iteration
  | .known => .ok ({ l with hosts := l.hosts.dedup.insertionSort (· ≤ ·) }, t)
  | .missing =>
      match l.hosts with
      | [] => .ok (l, t)
      | hostId :: hosts =>
          .ok (({ l with hosts := hosts } : Locals).ofRound
            ((l.round t).exec carried fun t => t.insertMissing hostId fp))

/-- The steps for one service of a reply. -/
def serviceSteps (service : String × Json) : Except Fault (List Step) := do
  let v := service.2
  let logs ← (← v.member "logs").member "entries"
  let process ← (← v.member "status").member "process"
  let sockets ← (← v.member "status").member "sockets"
  return Step.lookup service :: (logs.elements.map .log ++ .sendLog ::
    (process.elements.map .process ++ (sockets.elements.map .socket ++
      [.sendService service, .updateType, .history])))

/-- The steps of a round: its services, and a statement for each host, of which there are no more
than services. -/
def roundSteps (services : List (String × Json)) : Except Fault (List Step) := do
  let steps ← services.foldlM (fun steps service => return steps ++ (← serviceSteps service)) []
  return steps ++ .known :: List.replicate services.length .missing

def runSteps (l : Locals) (t : ServiceTables) (steps : List Step) :
    Except Fault (Locals × ServiceTables) :=
  steps.foldlM (fun s step => step.exec col carried fp s.1 s.2) (l, t)

end steps

/-! ### Rounds of several agents -/

/-- The host and the name of a reported service. -/
def reportedName (service : String × Json) : Option (String × String) :=
  match service.2.path ["logs", "host"] >>= Json.asString with
  | .ok host => some (host, service.1)
  | .error _ => none

def reportedNames (services : List (String × Json)) : List (String × String) :=
  services.filterMap reportedName

/-- The round of an agent: its time, the services of its reply, and what is left to do. -/
structure Thread where
  fp : ℚ
  services : List (String × Json)
  locals : Locals
  steps : List Step

def Thread.idle : Thread := ⟨0, [], .start, []⟩

/-- The agents of all backends on their tables. `said` holds the rows that the missing statements
have inserted, `reported` what each agent ever reported. -/
structure Rounds where
  tables : ServiceTables
  threads : ℕ → Thread
  said : List HistoryRow
  reported : ℕ → List (String × String)

/-- A round begins with its reply, or takes a step. -/
inductive Move
  | collect (agent : ℕ) (fp : ℚ) (reply : Json)
  | step (agent : ℕ)

/-- The rows that a missing statement inserts. -/
def ServiceTables.missingRows (t : ServiceTables) (hostId : ℕ) (timestamp : ℚ) : List HistoryRow :=
  (t.insertMissing hostId timestamp).history.drop t.history.length

namespace Rounds

variable (col : Collation)

/-- No agent has collected yet. -/
def start (t : ServiceTables) : Rounds := ⟨t, fun _ => .idle, [], fun _ => []⟩

/-- The host of the next step of an agent, if that is a missing statement. -/
def nextHost (r : Rounds) (agent : ℕ) : Option ℕ :=
  match (r.threads agent).steps, (r.threads agent).locals.hosts with
  | .missing :: _, hostId :: _ => some hostId
  | _, _ => none

/-- The rows that the next step of an agent inserts as missing. -/
def nextMissing (r : Rounds) (agent : ℕ) : List HistoryRow :=
  match r.nextHost agent with
  | some hostId => r.tables.missingRows hostId (r.threads agent).fp
  | none => []

/-- Every statement is carried out. An agent begins a round when its last one is complete. -/
def move (r : Rounds) : Move → Except Fault Rounds
  | .collect agent fp reply => do
      if (r.threads agent).steps.isEmpty then
        let services := (← reply.member "services").entries
        let steps ← roundSteps services
        return { r with
          threads := Function.update r.threads agent ⟨fp, services, .start, steps⟩
          reported := Function.update r.reported agent
            (r.reported agent ++ reportedNames services) }
      else
        return r
  | .step agent => do
      let thread := r.threads agent
      match thread.steps with
      | [] => return r
      | step :: steps =>
          let (locals, tables) ← step.exec col (fun _ => true) thread.fp thread.locals r.tables
          return { r with
            tables := tables
            threads := Function.update r.threads agent
              { thread with locals := locals, steps := steps }
            said := r.said ++ r.nextMissing agent }

/-- Moves one after the other. -/
def run (r : Rounds) (moves : List Move) : Except Fault Rounds := moves.foldlM (move col) r

end Rounds

end WatchedBack
