import WatchedBack.Model.Collect
import WatchedBack.Model.FailingLookups

/-! The calls of `alerter.cpp` with what their queries come to, and `collect` with these calls at
their places. -/

namespace WatchedBack

/-- What one query meets: whether there is a connection for it, and what it comes to. -/
structure QueryAnswer where
  grabbed : Bool
  sent : Sent
  deriving DecidableEq, Repr

/-- What the queries of a call find, and what each of them meets: the one for the host of the
service, those of the title, those of the message, the one for the alerters, and the one of the
notice that there are none. -/
structure AlertAnswer where
  tables : ServiceTables
  ressources : List RessourceRow
  alertServices : ℕ → List (String × String)
  alertHosts : ℕ → List (String × String)
  serviceHost : QueryAnswer
  titleService : QueryAnswer
  titleHost : QueryAnswer
  titleRessource : QueryAnswer
  messageService : QueryAnswer
  messageHost : QueryAnswer
  messageRessource : QueryAnswer
  dests : QueryAnswer
  notice : QueryAnswer

/-- The name of the first row. What is not carried out returns 0, a null pointer, of which
`std::string` makes an exception. -/
def selectName {α : Type} (found : α → Bool) (name : α → String) (rows : List α) (sent : Sent) :
    Except Fault String := do
  match ← selectFirst found name rows sent with
  | some name => return name
  | none => throw .logicError

/-- `myqCatch`: an exception is logged, and nothing is sent. -/
def caught (call : Except Fault (List Delivery)) : Except Fault (List Delivery) :=
  match call with
  | .error .logicError => .ok []
  | call => call

namespace AlertAnswer

variable (a : AlertAnswer)

/-! ### Lookups -/

def getServiceHost (servId : ℕ) (answer : QueryAnswer) : Except Fault ℕ := do
  if answer.grabbed then
    return (← selectFirst (fun row : ServiceRow => row.id = servId) ServiceRow.hostId
      a.tables.services answer.sent).getD 0
  else
    return 0

def getServiceName (hostId servId : ℕ) (answer : QueryAnswer) : Except Fault String :=
  if answer.grabbed then
    selectName (fun row : ServiceRow => row.hostId = hostId ∧ row.id = servId) ServiceRow.name
      a.tables.services answer.sent
  else .ok ""

def getHostName (hostId : ℕ) (answer : QueryAnswer) : Except Fault String :=
  if answer.grabbed then
    selectName (fun row : NameRow => row.id = hostId) NameRow.name a.tables.hosts answer.sent
  else .ok ""

/-- Without a connection this one returns 0 as well. -/
def getRessourceName (resId : ℕ) (answer : QueryAnswer) : Except Fault String :=
  if answer.grabbed then
    selectName (fun row : RessourceRow => row.id = resId) RessourceRow.name a.ressources answer.sent
  else .error .logicError

/-! ### Calls -/

/-- What every call does once its texts are made. If there are no alerters, a notice is composed. -/
def deliver (alerters : List String) (dests : List (String × String)) (notice : Except Fault String)
    (level : ℕ) (title message : String) : Except Fault (List Delivery) :=
  if a.dests.grabbed then
    caught <| do
      match a.dests.sent with
      | .done =>
          if dests.isEmpty then
            let _ ← notice
            return []
          else
            return dests.flatMap fun d => send alerters ⟨level, d.1, d.2, title, message⟩
      | .failed => return []
      | .threw => throw .logicError
  else .ok []

variable (alerters : List String)

def sendService (hostId servId : ℕ) (msg : String) : Except Fault (List Delivery) :=
  a.deliver alerters (a.alertServices servId) (a.getServiceName hostId servId a.notice)
    AlertLevel.critical.toNat msg msg

def sendLog (hostId servId level : ℕ) (lines : String) : Except Fault (List Delivery) := do
  let title := "Service " ++ (← a.getServiceName hostId servId a.titleService) ++ " on " ++
    (← a.getHostName hostId a.titleHost) ++ " new log elements"
  a.deliver alerters (a.alertServices servId) (a.getServiceName hostId servId a.notice) level title
    lines

def sendServRessource (servId resId : ℕ) (event : ResEvent) (current : ℚ) :
    Except Fault (List Delivery) := do
  let hostId ← a.getServiceHost servId a.serviceHost
  let title := "Service " ++ (← a.getServiceName hostId servId a.titleService) ++ " on " ++
    (← a.getHostName hostId a.titleHost) ++ " resource " ++
    (← a.getRessourceName resId a.titleRessource) ++ " new event"
  let message := "Service:\t " ++ (← a.getServiceName hostId servId a.messageService) ++
    "\nHost:\t\t " ++ (← a.getHostName hostId a.messageHost) ++ "\nRessource:\t " ++
    (← a.getRessourceName resId a.messageRessource) ++ "\nProperty:\t " ++ event.property ++
    "\nRule:\t\t " ++ toString6 current ++ String.singleton event.oper ++ toString6 event.value
  a.deliver alerters (a.alertServices servId) (a.getServiceName hostId servId a.notice)
    event.eventType title message

def sendHostRessource (hostId resId : ℕ) (event : ResEvent) (current : ℚ) :
    Except Fault (List Delivery) := do
  let title := "Host " ++ (← a.getHostName hostId a.titleHost) ++ " resource " ++
    (← a.getRessourceName resId a.titleRessource) ++ " new event"
  let message := "Host:\t\t " ++ (← a.getHostName hostId a.messageHost) ++ "\nRessource:\t " ++
    (← a.getRessourceName resId a.messageRessource) ++ "\nProperty:\t " ++ event.property ++
    "\nRule:\t\t " ++ toString6 current ++ String.singleton event.oper ++ toString6 event.value
  a.deliver alerters (a.alertHosts hostId) (a.getHostName hostId a.notice) event.eventType title
    message

end AlertAnswer

/-- A call out of the loop over the services. -/
def ServiceAlert.send (alerters : List String) (a : AlertAnswer) :
    ServiceAlert → Except Fault (List Delivery)
  | .log hostId servId level lines => a.sendLog alerters hostId servId level lines
  | .service hostId servId msg => a.sendService alerters hostId servId msg

/-- A call out of `parse`. -/
def Alert.send (alerters : List String) (a : AlertAnswer) (alert : Alert) :
    Except Fault (List Delivery) :=
  if alert.isService then
    a.sendServRessource alerters alert.ownerId alert.resId alert.event alert.current
  else a.sendHostRessource alerters alert.ownerId alert.resId alert.event alert.current

/-! ### Collecting -/

namespace Alerting

section

/-! `queries n` is what the `n`-th of the calls meets. -/

variable (alerters : List String) (queries : ℕ → AlertAnswer)

/-- The call, and the alert that it leaves. -/
def alert (r : Round) (call : ServiceAlert) : Except Fault Round := do
  let _ ← call.send alerters (queries r.alerts.length)
  r.alert call

def alertEvent (s : ParseState) (call : Alert) : Except Fault ParseState := do
  let _ ← call.send alerters (queries s.alerts.length)
  s.alert call

end

/-- `serviceQueries` answers the calls out of the loop over the services, `eventQueries` those out
of `parse`. -/
def collect (alerters : List String) (serviceQueries eventQueries : ℕ → AlertAnswer) :
    Collation → (ℕ → Bool) → (ℕ → Answer) → ℚ → Option Json → Bool → AgentClient → ServiceTables →
      Database → Except Fault Collected :=
  collectWith (alert alerters serviceQueries) (alertEvent alerters eventQueries)

end Alerting

end WatchedBack
