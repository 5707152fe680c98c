import WatchedBack.Library.Shell
import WatchedBack.Verification.Collect.Services
import WatchedBack.Verification.Rounds.Uninterrupted

/-! # The command line of a mail -/

namespace WatchedBack

/-! ### The four functions that send alerts -/

/-- A call of one of the functions. The message of `sendService` is the one `collect` makes of
the names of a service and its host, and of the number of components that failed. -/
inductive AlertCall
  | service (servId : ℕ) (name host : String) (failed : ℕ)
  | log (hostId servId level : ℕ) (lines : String)
  | servRessource (servId resId : ℕ) (event : ResEvent) (current : ℚ)
  | hostRessource (hostId resId : ℕ) (event : ResEvent) (current : ℚ)

def failedMessage (name host : String) (failed : ℕ) : String :=
  "Service " ++ name ++ " on " ++ host ++ " have " ++ toString failed ++ " failed componant"

namespace AlertCall

variable (alerters : List String) (t : ServiceTables) (getRessourceName : ℕ → String)
  (servDests hostDests : ℕ → List (String × String))

def deliveries : AlertCall → List Delivery
  | .service servId name host failed =>
      sendService alerters servDests servId (failedMessage name host failed)
  | .log hostId servId level lines => sendLog alerters t servDests hostId servId level lines
  | .servRessource servId resId event current =>
      sendServRessource alerters t getRessourceName servDests servId resId event current
  | .hostRessource hostId resId event current =>
      sendHostRessource alerters t getRessourceName hostDests hostId resId event current

/-- The names that a title is made of. -/
def names : AlertCall → List String
  | .service _ name host _ => [name, host]
  | .log hostId servId _ _ => [t.getServiceName hostId servId, t.getHostName hostId]
  | .servRessource servId resId _ _ =>
      [t.getServiceName (t.getServiceHost servId) servId, t.getHostName (t.getServiceHost servId),
        getRessourceName resId]
  | .hostRessource hostId resId _ _ => [t.getHostName hostId, getRessourceName resId]

end AlertCall

/-! ### The messages of a round -/

/-- The message of a service alert is made of a name, a host and a number. -/
def ServiceAlert.Composed : ServiceAlert → Prop
  | .service _ _ msg => ∃ name host failed, msg = failedMessage name host failed
  | .log _ _ _ _ => True

section messages

open Fallible

variable {col : Collation} {carried : ℕ → Bool} {fp : ℚ} {l : Locals} {t : ServiceTables}
  {m : Locals × ServiceTables}

theorem collectLog_alerts {servId : ℕ} {s s' : LogScan} {entry : Json}
    (h : collectLog col carried servId s entry = .ok s') : s'.round.alerts = s.round.alerts := by
  rcases collectLog_cases h with ⟨-, rfl⟩ | ⟨-, -, level, line, row, -, rfl⟩
  · rfl
  · rfl

/-- A step adds at most an alert whose message is composed. -/
theorem Step.exec_composed {step : Step} (h : step.exec col carried fp l t = .ok m)
    (hl : ∀ a ∈ l.alerts, a.Composed) : ∀ a ∈ m.1.alerts, a.Composed := by
  cases step with
  | lookup service =>
      rw [(lookupService_fresh h).2.2]
      exact hl
  | log entry =>
      obtain ⟨s, hs, h⟩ := bind_eq_ok.mp h
      cases h
      have halerts : s.round.alerts = l.alerts := collectLog_alerts hs
      rw [Locals.ofLogScan, halerts]
      exact hl
  | process p =>
      obtain ⟨s, hs, h⟩ := bind_eq_ok.mp h
      cases h
      obtain ⟨row, hround⟩ := collectProcess_round hs
      rw [Locals.ofStatusScan, hround]
      exact hl
  | socket p =>
      obtain ⟨s, hs, h⟩ := bind_eq_ok.mp h
      cases h
      obtain ⟨row, hround⟩ := collectSocket_round hs
      rw [Locals.ofStatusScan, hround]
      exact hl
  | sendLog =>
      cases h
      intro a ha
      dsimp only at ha
      split at ha
      · rcases List.mem_append.mp ha with hold | hnew
        · exact hl a hold
        · rw [List.mem_singleton.mp hnew]
          trivial
      · exact hl a ha
  | sendService service =>
      rcases Step.exec_sendService h with rfl | ⟨host, rfl⟩
      · exact hl
      · intro a ha
        rcases List.mem_append.mp ha with hold | hnew
        · exact hl a hold
        · rw [List.mem_singleton.mp hnew]
          exact ⟨service.1, host, l.failed, rfl⟩
  | updateType | history | known =>
      cases h
      exact hl
  | missing =>
      rcases Step.exec_missing h with rfl | ⟨hostId, hosts, rfl⟩
      · exact hl
      · exact hl

/-- The messages of all service alerts that a call of `collect` sends. -/
theorem collect_composed {answers : ℕ → Answer} {reply : Json} {agent : AgentClient}
    {db : Database} {res : Collected}
    (h : collect col carried answers fp (some reply) true agent t db = .ok res) :
    ∀ a ∈ res.round.alerts, a.Composed := by
  obtain ⟨services, steps, l', -, -, hrun, hround⟩ := collect_uninterrupted h
  have halerts : l'.alerts = res.round.alerts := congrArg Round.alerts hround
  rw [← halerts]
  exact foldlM_invariant (fun s : Locals × ServiceTables => ∀ a ∈ s.1.alerts, a.Composed)
    (fun s s' step _ hs hstep => Step.exec_composed hstep hs) (by simp [Locals.start]) hrun

end messages

/-! ### Titles -/

/-- A text that can stand between single quotes in a C string. -/
def Quotable (text : String) : Prop := '\'' ∉ text.toList ∧ '\x00' ∉ text.toList

instance (text : String) : Decidable (Quotable text) := inferInstanceAs (Decidable (_ ∧ _))

theorem quotable_append {a b : String} : Quotable (a ++ b) ↔ Quotable a ∧ Quotable b := by
  simp only [Quotable, String.toList_append, List.mem_append, not_or]
  tauto

theorem quotable_toString (n : ℕ) : Quotable (toString n) := by
  have hdigit (c : Char) (hc : c ∈ (toString n).toList) : c.isDigit = true := by
    rw [Nat.toString_eq_repr, Nat.toList_repr] at hc
    exact Nat.isDigit_of_mem_toDigits (by decide) (by decide) hc
  refine ⟨fun h => ?_, fun h => ?_⟩
  · exact absurd (hdigit _ h) (by decide)
  · exact absurd (hdigit _ h) (by decide)

section call

variable {alerters : List String} {t : ServiceTables} {getRessourceName : ℕ → String}
  {servDests hostDests : ℕ → List (String × String)} {call : AlertCall} {d : Delivery}

theorem mem_send {x : Delivery} (h : d ∈ send alerters x) : d = x := by
  unfold send at h
  split at h
  · exact List.mem_singleton.mp h
  · cases h

/-- The fixed parts of a title can be quoted, so a title can be if its names can. -/
theorem quotable_title (h : d ∈ call.deliveries alerters t getRessourceName servDests hostDests) :
    Quotable d.title ↔ ∀ name ∈ call.names t getRessourceName, Quotable name := by
  have hfixed : Quotable "Service " ∧ Quotable "Host " ∧ Quotable " on " ∧ Quotable " have " ∧
      Quotable " failed componant" ∧ Quotable " new log elements" ∧ Quotable " resource " ∧
      Quotable " new event" := by decide
  cases call with
  | service servId name host failed =>
      obtain ⟨dest, -, hd⟩ := List.mem_flatMap.mp h
      rw [mem_send hd]
      simp only [failedMessage, quotable_append, hfixed, quotable_toString, AlertCall.names,
        List.forall_mem_cons, List.not_mem_nil, IsEmpty.forall_iff, implies_true, and_true,
        true_and]
  | log hostId servId level lines =>
      obtain ⟨dest, -, hd⟩ := List.mem_flatMap.mp h
      rw [mem_send hd]
      simp only [quotable_append, hfixed, AlertCall.names, List.forall_mem_cons, List.not_mem_nil,
        IsEmpty.forall_iff, implies_true, and_true, true_and]
  | servRessource servId resId event current =>
      obtain ⟨dest, -, hd⟩ := List.mem_flatMap.mp h
      rw [mem_send hd]
      simp only [quotable_append, hfixed, AlertCall.names, List.forall_mem_cons, List.not_mem_nil,
        IsEmpty.forall_iff, implies_true, and_true, true_and, and_assoc]
  | hostRessource hostId resId event current =>
      obtain ⟨dest, -, hd⟩ := List.mem_flatMap.mp h
      rw [mem_send hd]
      simp only [quotable_append, hfixed, AlertCall.names, List.forall_mem_cons, List.not_mem_nil,
        IsEmpty.forall_iff, implies_true, and_true, true_and]

end call

/-! ### The line -/

/-- The words that the command is meant to have. -/
def Delivery.mailWords (d : Delivery) : List (List Char) :=
  ["mail".toList, "-s".toList, d.title.toList, d.dest.toList]

/-- The line gives the meant words exactly when the title can be quoted and the destination
needs no quotes. -/
theorem words_popen_iff (sh : Shell.Dialect) (d : Delivery) :
    Shell.words sh (popen (emailCommand d.dest d.title)) = some d.mailWords ↔
      Quotable d.title ∧ '\x00' ∉ d.dest.toList ∧ Shell.PlainWord sh d.dest.toList := by
  have hline : (emailCommand d.dest d.title).toList = "mail -s ".toList ++
      ('\'' :: d.title.toList ++ '\'' :: ' ' :: d.dest.toList) := by
    simp [emailCommand, String.toList_append]
  have hpre : Shell.Lexer.start.run sh "mail -s ".toList =
      some ⟨["mail".toList, "-s".toList], none, .bare, .closed⟩ := rfl
  have hiff := @Shell.words_quoted_iff sh "mail -s ".toList d.title.toList d.dest.toList _ hpre
  by_cases hnul : '\x00' ∈ d.title.toList ∨ '\x00' ∈ d.dest.toList
  · -- the line ends before the first NUL
    refine iff_of_false (fun h => ?_) fun h => ?_
    · have hfree (w : List Char) (hw : w ∈ d.mailWords) : '\x00' ∉ w := by
        refine Shell.notMem_of_words (by decide) (by decide) ?_ h hw
        intro hmem
        exact absurd (List.mem_takeWhile_imp hmem) (by decide)
      rcases hnul with hnul | hnul
      · exact hfree _ (by simp [Delivery.mailWords]) hnul
      · exact hfree _ (by simp [Delivery.mailWords]) hnul
    · rcases hnul with hnul | hnul
      · exact h.1.2 hnul
      · exact h.2.1 hnul
  · obtain ⟨htitle, hdest⟩ := not_or.mp hnul
    have hfull : popen (emailCommand d.dest d.title) = (emailCommand d.dest d.title).toList := by
      have hmem : '\x00' ∉ (emailCommand d.dest d.title).toList := by
        rw [hline]
        simp [htitle, hdest]
      exact List.takeWhile_eq_self_iff.mpr fun c hc => decide_eq_true fun h => hmem (h ▸ hc)
    rw [hfull, hline]
    refine hiff.trans ?_
    simp [Quotable, htitle, hdest]

/-! ### Every alert -/

/-- Every alert goes to the super user. -/
def toRoot : ℕ → List (String × String) := fun _ => [("email", "root")]

def failedDelivery (name host : String) : Delivery :=
  ⟨5, "email", "root", failedMessage name host 1, failedMessage name host 1⟩

theorem emailSendAlert_failed (name host : String) :
    emailSendAlert (failedDelivery name host) =
      some (popen (emailCommand "root" (failedMessage name host 1)),
        failedMessage name host 1 ++ "\n\x04") :=
  if_pos (show emailSends 5 = true by decide)

end WatchedBack
