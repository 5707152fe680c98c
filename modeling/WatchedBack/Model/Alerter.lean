import WatchedBack.Model.Services
import WatchedBack.Model.Ressource

/-! The alerts that `alerter.cpp` hands to the alerters, and what `email.lua` does with them. -/

namespace WatchedBack

/-- `alerter::levels` -/
inductive AlertLevel
  | ok | info | notice | warning | error | critical
  deriving DecidableEq, Repr

/-- The number of an enumerator. -/
def AlertLevel.toNat : AlertLevel → ℕ
  | ok => 0
  | info => 1
  | notice => 2
  | warning => 3
  | error => 4
  | critical => 5

/-- A call of `sendLog` or `sendService`. -/
inductive ServiceAlert
  | log (hostId servId level : ℕ) (lines : String)
  | service (hostId servId : ℕ) (msg : String)
  deriving DecidableEq, Repr

/-- What an alerter is handed. The cast to `alerter::levels` and the one back to `int` keep
the number of the level. -/
structure Delivery where
  level : ℕ
  alerter : String
  dest : String
  title : String
  message : String
  deriving DecidableEq, Repr

/-- `alerterManager::send`: an unknown alerter is only warned of. -/
def send (alerters : List String) (delivery : Delivery) : List Delivery :=
  if delivery.alerter ∈ alerters then [delivery] else []

section deliver

variable (alerters : List String) (t : ServiceTables) (dests : ℕ → List (String × String))

def sendService (servId : ℕ) (msg : String) : List Delivery :=
  (dests servId).flatMap fun d =>
    send alerters ⟨AlertLevel.critical.toNat, d.1, d.2, msg, msg⟩

def sendLog (hostId servId level : ℕ) (lines : String) : List Delivery :=
  let title := "Service " ++ t.getServiceName hostId servId ++ " on " ++ t.getHostName hostId ++
    " new log elements"
  (dests servId).flatMap fun d => send alerters ⟨level, d.1, d.2, title, lines⟩

/-- The destinations of a service are its rows of `p$alert_services`. -/
def ServiceAlert.deliveries : ServiceAlert → List Delivery
  | log hostId servId level lines => sendLog alerters t dests hostId servId level lines
  | service _ servId msg => sendService alerters dests servId msg

end deliver

/-- The level under which `sendHostRessource` and `sendServRessource` send an event. -/
def Alert.level (a : Alert) : ℕ := a.event.eventType

/-! ### Events of resources -/

/-- `std::to_string` of a double: six digits after the point. -/
def toString6 (x : ℚ) : String :=
  let n := (Rounding.roundEven (|x| * 10 ^ 6)).toNat
  let digits := toString (n % 10 ^ 6)
  (if x < 0 then "-" else "") ++ toString (n / 10 ^ 6) ++ "." ++
    String.ofList (List.replicate (6 - digits.length) '0') ++ digits

section deliver

/-! `getRessourceName` is a parameter. -/

variable (alerters : List String) (t : ServiceTables) (getRessourceName : ℕ → String)
  (dests : ℕ → List (String × String))

def sendServRessource (servId resId : ℕ) (event : ResEvent) (current : ℚ) : List Delivery :=
  let hostId := t.getServiceHost servId
  let title := "Service " ++ t.getServiceName hostId servId ++ " on " ++ t.getHostName hostId ++
    " resource " ++ getRessourceName resId ++ " new event"
  let message := "Service:\t " ++ t.getServiceName hostId servId ++ "\nHost:\t\t " ++
    t.getHostName hostId ++ "\nRessource:\t " ++ getRessourceName resId ++ "\nProperty:\t " ++
    event.property ++ "\nRule:\t\t " ++ toString6 current ++ String.singleton event.oper ++
    toString6 event.value
  (dests servId).flatMap fun d => send alerters ⟨event.eventType, d.1, d.2, title, message⟩

def sendHostRessource (hostId resId : ℕ) (event : ResEvent) (current : ℚ) : List Delivery :=
  let title := "Host " ++ t.getHostName hostId ++ " resource " ++ getRessourceName resId ++
    " new event"
  let message := "Host:\t\t " ++ t.getHostName hostId ++ "\nRessource:\t " ++
    getRessourceName resId ++ "\nProperty:\t " ++ event.property ++ "\nRule:\t\t " ++
    toString6 current ++ String.singleton event.oper ++ toString6 event.value
  (dests hostId).flatMap fun d => send alerters ⟨event.eventType, d.1, d.2, title, message⟩

end deliver

/-! ### `email.lua` -/

/-- Whether `sendAlert` of `email.lua` sends a mail. -/
def emailSends (lvl : ℕ) : Bool :=
  lvl = AlertLevel.critical.toNat ∨ lvl = AlertLevel.error.toNat ∨ lvl = AlertLevel.warning.toNat

/-- The command that `email.lua` runs. -/
def emailCommand (dest title : String) : String := "mail -s '" ++ title ++ "' " ++ dest

/-- `io.popen` hands the shell a C string. -/
def popen (command : String) : List Char := command.toList.takeWhile fun c => c ≠ '\x00'

/-- `sendAlert` of `email.lua`: the line that the shell reads, and the text of the mail. -/
def emailSendAlert (d : Delivery) : Option (List Char × String) :=
  if emailSends d.level then
    some (popen (emailCommand d.dest d.title), d.message ++ "\n\x04")
  else none

end WatchedBack
