import WatchedBack.Library.Outputs
import WatchedBack.Model.FailingAlerts
import WatchedBack.Verification.Alerts.Mail
import WatchedBack.Verification.Events.Lifecycle
import WatchedBack.Verification.Replies.Outcome

/-! # Alerts whose queries fail

A name that is not read ends the call with an exception, and no handler stands between the call and
the thread. A reply is processed to its end exactly if each of its calls can name what it is
about. -/

namespace WatchedBack

open Fallible Outputs

/-! ### Lookups -/

namespace AlertAnswer

variable (a : AlertAnswer)

def HasService (hostId servId : ℕ) : Prop :=
  ∃ row ∈ a.tables.services, row.hostId = hostId ∧ row.id = servId

def HasHost (hostId : ℕ) : Prop := ∃ row ∈ a.tables.hosts, row.id = hostId

def HasRessource (resId : ℕ) : Prop := ∃ row ∈ a.ressources, row.id = resId

/-- The query for the host of a service has a row, if it is carried out. -/
def HostRead (servId : ℕ) : Prop :=
  a.serviceHost.grabbed = true → a.serviceHost.sent = .done →
    ∃ row ∈ a.tables.services, row.id = servId

/-- The host under which a service is then looked up. -/
def hostRead (servId : ℕ) : ℕ :=
  if a.serviceHost.grabbed = true ∧ a.serviceHost.sent = .done then a.tables.getServiceHost servId
  else 0

/-- A query for the name of a service is carried out and has a row, if there is a connection. -/
def ServiceNamed (hostId servId : ℕ) (answer : QueryAnswer) : Prop :=
  answer.grabbed = true → answer.sent = .done ∧ a.HasService hostId servId

def HostNamed (hostId : ℕ) (answer : QueryAnswer) : Prop :=
  answer.grabbed = true → answer.sent = .done ∧ a.HasHost hostId

/-- Here a connection is needed as well. -/
def RessourceNamed (resId : ℕ) (answer : QueryAnswer) : Prop :=
  answer.grabbed = true ∧ answer.sent = .done ∧ a.HasRessource resId

/-- The name for the notice has a row, if it is read. -/
def NoticeReads (dests : List (String × String)) (present : Prop) : Prop :=
  a.dests.grabbed = true → a.dests.sent = .done → dests = [] → a.notice.grabbed = true →
    a.notice.sent = .done → present

end AlertAnswer

/-- The call can name what it is about. -/
def ServiceAlert.Named (a : AlertAnswer) : ServiceAlert → Prop
  | .log hostId servId _ _ =>
      a.ServiceNamed hostId servId a.titleService ∧ a.HostNamed hostId a.titleHost ∧
        a.NoticeReads (a.alertServices servId) (a.HasService hostId servId)
  | .service hostId servId _ =>
      a.NoticeReads (a.alertServices servId) (a.HasService hostId servId)

def Alert.Named (a : AlertAnswer) (alert : Alert) : Prop :=
  if alert.isService then
    a.HostRead alert.ownerId ∧
      a.ServiceNamed (a.hostRead alert.ownerId) alert.ownerId a.titleService ∧
      a.HostNamed (a.hostRead alert.ownerId) a.titleHost ∧
      a.RessourceNamed alert.resId a.titleRessource ∧
      a.ServiceNamed (a.hostRead alert.ownerId) alert.ownerId a.messageService ∧
      a.HostNamed (a.hostRead alert.ownerId) a.messageHost ∧
      a.RessourceNamed alert.resId a.messageRessource ∧
      a.NoticeReads (a.alertServices alert.ownerId)
        (a.HasService (a.hostRead alert.ownerId) alert.ownerId)
  else
    a.HostNamed alert.ownerId a.titleHost ∧ a.RessourceNamed alert.resId a.titleRessource ∧
      a.HostNamed alert.ownerId a.messageHost ∧ a.RessourceNamed alert.resId a.messageRessource ∧
      a.NoticeReads (a.alertHosts alert.ownerId) (a.HasHost alert.ownerId)

section lookups

variable {α : Type} (found : α → Bool) (name : α → String) (rows : List α)

/-- A name is read of a select that is carried out and has a row. Without one, the first row is read
out of bounds. -/
theorem selectName_spec (sent : Sent) :
    (Succeeds (selectName found name rows sent) ↔ sent = .done ∧ ∃ row ∈ rows, found row = true) ∧
      (selectName found name rows sent ≠ .error .outOfBounds ↔
        (sent = .done → ∃ row ∈ rows, found row = true)) := by
  cases sent with
  | failed => simp [selectName, selectFirst, throw, throwThe, MonadExceptOf.throw]
  | threw => simp [selectName, selectFirst, throw, throwThe, MonadExceptOf.throw]
  | done =>
      cases hfind : rows.find? found with
      | none =>
          have hnone : ¬ ∃ row ∈ rows, found row = true := by
            rintro ⟨row, hrow, hfound⟩
            exact List.find?_eq_none.mp hfind row hrow hfound
          simp [selectName, selectFirst, hfind, hnone]
      | some row =>
          have hrow : ∃ row ∈ rows, found row = true :=
            ⟨row, List.mem_of_find?_eq_some hfind, List.find?_some hfind⟩
          simp [selectName, selectFirst, hfind, hrow]

variable (a : AlertAnswer) (hostId servId resId : ℕ) (answer : QueryAnswer)

theorem succeeds_getServiceName :
    Succeeds (a.getServiceName hostId servId answer) ↔ a.ServiceNamed hostId servId answer := by
  unfold AlertAnswer.getServiceName AlertAnswer.ServiceNamed
  cases answer.grabbed with
  | false => simp
  | true =>
      simp only [if_true, forall_const, (selectName_spec _ _ _ _).1, AlertAnswer.HasService,
        decide_eq_true_eq]

theorem succeeds_getHostName :
    Succeeds (a.getHostName hostId answer) ↔ a.HostNamed hostId answer := by
  unfold AlertAnswer.getHostName AlertAnswer.HostNamed
  cases answer.grabbed with
  | false => simp
  | true =>
      simp only [if_true, forall_const, (selectName_spec _ _ _ _).1, AlertAnswer.HasHost,
        decide_eq_true_eq]

theorem succeeds_getRessourceName :
    Succeeds (a.getRessourceName resId answer) ↔ a.RessourceNamed resId answer := by
  unfold AlertAnswer.getRessourceName AlertAnswer.RessourceNamed
  cases answer.grabbed with
  | false => simp
  | true =>
      simp only [if_true, true_and, (selectName_spec _ _ _ _).1, AlertAnswer.HasRessource,
        decide_eq_true_eq]

/-- Without a connection, and where the query fails, the host is 0. -/
theorem getServiceHost_eq_ok :
    a.getServiceHost servId a.serviceHost = .ok hostId ↔
      a.HostRead servId ∧ hostId = a.hostRead servId := by
  unfold AlertAnswer.getServiceHost AlertAnswer.HostRead AlertAnswer.hostRead
  cases a.serviceHost.grabbed with
  | false => simp [eq_comm]
  | true =>
      cases a.serviceHost.sent with
      | failed => simp [selectFirst, eq_comm]
      | threw => simp [selectFirst, eq_comm]
      | done =>
          cases hfind : a.tables.services.find? fun row => row.id = servId with
          | none =>
              have hnone : ¬ ∃ row ∈ a.tables.services, row.id = servId := by
                rintro ⟨row, hrow, hid⟩
                simpa [hid] using List.find?_eq_none.mp hfind row hrow
              simp [selectFirst, hfind, hnone]
          | some row =>
              have hid : row.id = servId := by simpa using List.find?_some hfind
              have hrow : ∃ row ∈ a.tables.services, row.id = servId :=
                ⟨row, List.mem_of_find?_eq_some hfind, hid⟩
              simp only [selectFirst, hfind, hrow, ServiceTables.getServiceHost, if_true, ok_bind,
                Option.getD_some, pure_eq_ok, Except.ok.injEq, and_self, forall_const, true_and,
                Option.map_some]
              exact eq_comm

end lookups

/-! ### Calls -/

section calls

variable (a : AlertAnswer) (alerters : List String)

/-- Behind its texts, a call catches what is thrown. -/
theorem succeeds_deliver (dests : List (String × String)) (notice : Except Fault String)
    (level : ℕ) (title message : String) :
    Succeeds (a.deliver alerters dests notice level title message) ↔
      (a.dests.grabbed = true → a.dests.sent = .done → dests = [] →
        notice ≠ .error .outOfBounds) := by
  unfold AlertAnswer.deliver
  cases a.dests.grabbed with
  | false => simp
  | true =>
      cases a.dests.sent with
      | failed => simp [caught]
      | threw => simp [caught, throw, throwThe, MonadExceptOf.throw]
      | done =>
          cases dests with
          | cons d dests => simp [caught]
          | nil =>
              cases notice with
              | ok name => simp [caught]
              | error fault => cases fault <;> simp [caught]

theorem succeeds_deliver_service (hostId servId level : ℕ) (title message : String) :
    Succeeds (a.deliver alerters (a.alertServices servId) (a.getServiceName hostId servId a.notice)
      level title message) ↔
      a.NoticeReads (a.alertServices servId) (a.HasService hostId servId) := by
  rw [succeeds_deliver, AlertAnswer.NoticeReads]
  apply imp_congr_right; intro _
  apply imp_congr_right; intro _
  apply imp_congr_right; intro _
  unfold AlertAnswer.getServiceName
  cases a.notice.grabbed with
  | false => simp
  | true =>
      simp only [if_true, forall_const, (selectName_spec _ _ _ _).2, AlertAnswer.HasService,
        decide_eq_true_eq]

theorem succeeds_deliver_host (hostId level : ℕ) (title message : String) :
    Succeeds (a.deliver alerters (a.alertHosts hostId) (a.getHostName hostId a.notice) level title
      message) ↔ a.NoticeReads (a.alertHosts hostId) (a.HasHost hostId) := by
  rw [succeeds_deliver, AlertAnswer.NoticeReads]
  apply imp_congr_right; intro _
  apply imp_congr_right; intro _
  apply imp_congr_right; intro _
  unfold AlertAnswer.getHostName
  cases a.notice.grabbed with
  | false => simp
  | true =>
      simp only [if_true, forall_const, (selectName_spec _ _ _ _).2, AlertAnswer.HasHost,
        decide_eq_true_eq]

theorem ServiceAlert.succeeds_send (call : ServiceAlert) :
    Succeeds (call.send alerters a) ↔ call.Named a := by
  cases call with
  | service hostId servId msg => exact succeeds_deliver_service a alerters hostId servId _ _ _
  | log hostId servId level lines =>
      unfold ServiceAlert.send AlertAnswer.sendLog ServiceAlert.Named
      rw [succeeds_bind_and fun _ => succeeds_bind_and fun _ =>
        succeeds_deliver_service a alerters hostId servId _ _ _, succeeds_getServiceName,
        succeeds_getHostName]

theorem Alert.succeeds_send (alert : Alert) :
    Succeeds (alert.send alerters a) ↔ alert.Named a := by
  unfold Alert.send Alert.Named
  split
  · unfold AlertAnswer.sendServRessource
    rw [succeeds_bind_value fun hostId => getServiceHost_eq_ok a hostId alert.ownerId,
      succeeds_bind_and fun _ => succeeds_bind_and fun _ => succeeds_bind_and fun _ =>
        succeeds_bind_and fun _ => succeeds_bind_and fun _ => succeeds_bind_and fun _ =>
          succeeds_deliver_service a alerters _ alert.ownerId _ _ _,
      succeeds_getServiceName, succeeds_getServiceName, succeeds_getHostName, succeeds_getHostName,
      succeeds_getRessourceName, succeeds_getRessourceName]
  · unfold AlertAnswer.sendHostRessource
    rw [succeeds_bind_and fun _ => succeeds_bind_and fun _ => succeeds_bind_and fun _ =>
      succeeds_bind_and fun _ => succeeds_deliver_host a alerters alert.ownerId _ _ _,
      succeeds_getHostName, succeeds_getHostName, succeeds_getRessourceName,
      succeeds_getRessourceName]

end calls

/-! ### The loop over the services -/

section services

variable {alerters : List String} {queries : ℕ → AlertAnswer} {col : Collation} {carried : ℕ → Bool}
  {fp : ℚ}

/-- The call of a round can name what it is about, whatever its queries come to. -/
abbrev ServiceAlert.NamedAt (queries : ℕ → AlertAnswer) (n : ℕ) (call : ServiceAlert) : Prop :=
  call.Named (queries n)

theorem mirror_alert (r : Round) (call : ServiceAlert) :
    Mirror (ServiceAlert.NamedAt queries) r.alerts Round.alerts (r.alert call)
      (Alerting.alert alerters queries r call) :=
  mirror_output rfl (ServiceAlert.succeeds_send (queries r.alerts.length) alerters call)

/-- A scan that raises no alert. -/
theorem mirror_scan {σ α : Type} (out : σ → List ServiceAlert) (f : σ → α → Except Fault σ)
    (h : ∀ s x m, f s x = .ok m → out m = out s) (s : σ) (xs : List α) :
    Mirror (ServiceAlert.NamedAt queries) (out s) out (xs.foldlM f s) (xs.foldlM f s) :=
  mirror_self fun _ hrun => foldlM_invariant (fun m => out m = out s)
    (fun m m' x _ hm hstep => (h m x m' hstep).trans hm) rfl hrun

theorem mirror_logEntries (servId : ℕ) (s : LogScan) (entries : List Json) :
    Mirror (ServiceAlert.NamedAt queries) s.round.alerts (fun s => s.round.alerts)
      (entries.foldlM (collectLog col carried servId) s)
      (entries.foldlM (collectLog col carried servId) s) :=
  mirror_scan (fun s => s.round.alerts) _ (fun _ _ _ => collectLog_alerts) s entries

theorem mirror_processes (servId : ℕ) (s : StatusScan) (ps : List Json) :
    Mirror (ServiceAlert.NamedAt queries) s.round.alerts (fun s => s.round.alerts)
      (ps.foldlM (collectProcess col carried fp servId) s)
      (ps.foldlM (collectProcess col carried fp servId) s) := by
  apply mirror_scan (fun s : StatusScan => s.round.alerts)
  intro s p m h
  obtain ⟨row, hround⟩ := collectProcess_round h
  rw [hround]
  rfl

theorem mirror_sockets (servId : ℕ) (s : StatusScan) (ps : List Json) :
    Mirror (ServiceAlert.NamedAt queries) s.round.alerts (fun s => s.round.alerts)
      (ps.foldlM (collectSocket col carried fp servId) s)
      (ps.foldlM (collectSocket col carried fp servId) s) := by
  apply mirror_scan (fun s : StatusScan => s.round.alerts)
  intro s p m h
  obtain ⟨row, hround⟩ := collectSocket_round h
  rw [hround]
  rfl

theorem mirror_collectLogs (hostId servId : ℕ) {r : Round} {before : List ServiceAlert}
    (hr : r.alerts = before) (entries : List Json) :
    Mirror (ServiceAlert.NamedAt queries) before Round.alerts
      (collectLogs col carried hostId servId r entries)
      (collectLogsWith (Alerting.alert alerters queries) col carried hostId servId r entries) := by
  subst hr
  apply mirror_bind (mirror_logEntries servId ⟨r, "", 0⟩ entries)
  intro s _
  by_cases hmax : 0 < s.maxlvl
  · simp only [hmax, if_true]
    exact mirror_alert _ _
  · simp only [hmax, if_false]
    exact mirror_self fun t ht => by cases ht; rfl

theorem mirror_collectService (acc : Round × List ℕ) (service : String × Json) :
    Mirror (ServiceAlert.NamedAt queries) acc.1.alerts (fun acc => acc.1.alerts)
      (collectService col carried fp acc service)
      (collectServiceWith (Alerting.alert alerters queries) col carried fp acc service) := by
  unfold collectService collectServiceWith
  apply mirror_read; intro logs _
  apply mirror_read; intro hostJson _
  apply mirror_read; intro host _
  generalize getHost col host _ _ = found
  obtain ⟨hosts, hostId⟩ := found
  dsimp only
  generalize getService col hostId service.1 _ _ = found
  obtain ⟨services, servId⟩ := found
  dsimp only
  apply mirror_read; intro status _
  apply mirror_read; intro properties _
  apply mirror_read; intro typeJson _
  apply mirror_read; intro type _
  generalize getServiceType col type _ _ = found
  obtain ⟨types, typeId⟩ := found
  dsimp only
  apply mirror_read; intro logs _
  apply mirror_read; intro entries _
  refine mirror_bind (mirror_collectLogs hostId servId ?_ entries.elements) fun r _ => ?_
  · rfl
  apply mirror_read; intro status _
  apply mirror_read; intro process _
  apply mirror_bind (mirror_processes servId ⟨r, 0, 0, 0⟩ process.elements)
  intro s _
  apply mirror_read; intro status _
  apply mirror_read; intro sockets _
  apply mirror_bind (mirror_sockets servId s sockets.elements)
  intro s _
  by_cases hnew : 0 < s.nfailed
  · simp only [hnew, if_true]
    apply mirror_read; intro hostJson _
    apply mirror_read; intro host _
    apply mirror_bind (mirror_alert s.round _)
    intro r _
    exact mirror_self fun t ht => by cases ht; rfl
  · simp only [hnew, if_false]
    exact mirror_self fun t ht => by cases ht; rfl

theorem mirror_services (acc : Round × List ℕ) (services : List (String × Json)) :
    Mirror (ServiceAlert.NamedAt queries) acc.1.alerts (fun acc => acc.1.alerts)
      (services.foldlM (collectService col carried fp) acc)
      (services.foldlM (collectServiceWith (Alerting.alert alerters queries) col carried fp) acc) :=
  mirror_foldlM (fun acc service _ => mirror_collectService acc service) acc

end services

/-! ### The rules of the clients -/

section parse

variable {alerters : List String} {queries : ℕ → AlertAnswer} {c : RessourceClient}
  {answers : ℕ → Answer} {line : Json}

abbrev Alert.NamedAt (queries : ℕ → AlertAnswer) (n : ℕ) (alert : Alert) : Prop :=
  alert.Named (queries n)

theorem mirror_alertEvent {s : ParseState} {before : List Alert} (hs : s.alerts = before)
    (call : Alert) :
    Mirror (Alert.NamedAt queries) before ParseState.alerts (s.alert call)
      (Alerting.alertEvent alerters queries s call) := by
  subst hs
  exact mirror_output rfl (Alert.succeeds_send (queries s.alerts.length) alerters call)

theorem mirror_openEvent (s : ParseState) (e : ResEvent) :
    Mirror (Alert.NamedAt queries) s.alerts ParseState.alerts (openEvent c answers line s e)
      (openEventWith (Alerting.alertEvent alerters queries) c answers line s e) := by
  have hquiet : Mirror (Alert.NamedAt queries) s.alerts ParseState.alerts
      (.ok s : Except Fault ParseState) (.ok s) := mirror_self fun t ht => by cases ht; rfl
  unfold openEvent openEventWith
  apply mirror_read; intro carried _
  cases carried with
  | false => exact hquiet
  | true =>
      apply mirror_read; intro v _
      apply mirror_read; intro begins _
      cases begins with
      | false => exact hquiet
      | true =>
          simp only [if_true]
          split
          · apply mirror_read; intro current _
            exact mirror_self fun t ht => by cases ht; exact exec_alerts _
          · apply mirror_read; intro timestamp _
            apply mirror_read; intro ts _
            apply mirror_read; intro current _
            apply mirror_read; intro value _
            apply mirror_alertEvent
            rfl

theorem mirror_parseLine (s : ParseState) :
    Mirror (Alert.NamedAt queries) s.alerts ParseState.alerts (parseLine c answers line s)
      (parseLineWith (Alerting.alertEvent alerters queries) c answers line s) := by
  have hclose (s t : ParseState) (entry : ℕ × ResEvent)
      (h : closeEvent c answers line s entry = .ok t) : t.alerts = s.alerts := by
    rcases closeEvent_cases h with ⟨-, rfl⟩ | ⟨-, ts, rfl⟩
    · rfl
    · rfl
  apply mirror_bind (mirror_foldlM (fun s e _ => mirror_openEvent s e) s)
  intro opened _
  apply mirror_bind (mirror_foldlM (fun s entry _ => mirror_self fun t => hclose s t entry) opened)
  intro closed _
  apply mirror_self
  intro t ht
  obtain ⟨stmt, rfl⟩ := storeSample_cases ht
  rfl

theorem mirror_parse {s : ParseState} {before : List Alert} (hs : s.alerts = before)
    (data : Json) :
    Mirror (Alert.NamedAt queries) before ParseState.alerts (parse c answers s data)
      (parseWith (Alerting.alertEvent alerters queries) c answers s data) := by
  subst hs
  exact mirror_foldlM (fun s line _ => mirror_parseLine s) s

theorem mirror_collectRessource (data : Json) (acc : List RessourceClient × ParseState)
    (c : RessourceClient) :
    Mirror (Alert.NamedAt queries) acc.2.alerts (fun acc => acc.2.alerts)
      (collectRessource answers data acc c)
      (collectRessourceWith (Alerting.alertEvent alerters queries) answers data acc c) := by
  apply mirror_read; intro node _
  refine mirror_bind (mirror_parse ?_ node) fun s _ => ?_
  · rfl
  · exact mirror_self fun t ht => by cases ht; rfl

theorem mirror_ressources (data : Json) (acc : List RessourceClient × ParseState)
    (ressources : List RessourceClient) :
    Mirror (Alert.NamedAt queries) acc.2.alerts (fun acc => acc.2.alerts)
      (ressources.foldlM (collectRessource answers data) acc)
      (ressources.foldlM
        (collectRessourceWith (Alerting.alertEvent alerters queries) answers data) acc) :=
  mirror_foldlM (fun acc c _ => mirror_collectRessource data acc c) acc

end parse

/-! ### A reply -/

/-- The missing statements raise no alert. -/
theorem collectMissing_alerts (carried : ℕ → Bool) (fp : ℚ) (hosts : List ℕ) (r : Round) :
    (collectMissing carried fp hosts r).alerts = r.alerts := by
  unfold collectMissing
  generalize hosts.dedup.insertionSort (· ≤ ·) = known
  induction known generalizing r with
  | nil => rfl
  | cons hostId known ih => exact (ih _).trans rfl

section reply

variable (alerters : List String) (serviceQueries eventQueries : ℕ → AlertAnswer) (col : Collation)
  (carried : ℕ → Bool) (answers : ℕ → Answer) (fp : ℚ) (reply : Option Json) (grabbed : Bool)
  (agent : AgentClient) (tables : ServiceTables) (db : Database)

/-- The calls that a reply has made can name what they are about. -/
def Collected.AllNamed (res : Collected) : Prop :=
  (∀ (n : ℕ) (call : ServiceAlert), res.round.alerts[n]? = some call →
    call.Named (serviceQueries n)) ∧
  ∀ (n : ℕ) (alert : Alert), res.parsed.alerts[n]? = some alert → alert.Named (eventQueries n)

/-- A reply is collected to its end exactly if it is without the alerts, and each of its calls can
name what it is about. -/
theorem alerting_collect_eq_ok (res : Collected) :
    Alerting.collect alerters serviceQueries eventQueries col carried answers fp reply grabbed agent
        tables db = .ok res ↔
      collect col carried answers fp reply grabbed agent tables db = .ok res ∧
        res.AllNamed serviceQueries eventQueries := by
  have hquiet (since : ℚ) (h : Except.ok (ε := Fault)
      ⟨{ agent with since := since }, ⟨tables, 0, []⟩, .start ∅ db⟩ = .ok res) :
      res.AllNamed serviceQueries eventQueries := by
    cases h
    simp [Collected.AllNamed, ParseState.start]
  cases reply with
  | none => exact (and_iff_left_of_imp (hquiet agent.since)).symm
  | some data =>
      unfold collect Alerting.collect collectWith
      cases grabbed with
      | false =>
          simp only [Bool.false_eq_true, if_false]
          refine (and_iff_left_of_imp fun h => ?_).symm
          obtain ⟨timestamp, -, h⟩ := bind_eq_ok.mp h
          obtain ⟨since, -, h⟩ := bind_eq_ok.mp h
          exact hquiet since h
      | true =>
          simp only [if_true, bind_eq_ok, (mirror_services _ _).returns,
            (mirror_ressources _ _ _).returns]
          constructor
          · rintro ⟨timestamp, ht, since, hsince, services, hs, acc, ⟨hrun, hcalls⟩, parsed,
              ⟨hparse, halerts⟩, hres⟩
            cases hres
            refine ⟨⟨timestamp, ht, since, hsince, services, hs, acc, hrun, parsed, hparse, rfl⟩, ?_,
              checked_nil.mp halerts⟩
            rw [collectMissing_alerts]
            exact checked_nil.mp hcalls
          · rintro ⟨⟨timestamp, ht, since, hsince, services, hs, acc, hrun, parsed, hparse, hres⟩,
              hcalls, halerts⟩
            cases hres
            rw [collectMissing_alerts] at hcalls
            exact ⟨timestamp, ht, since, hsince, services, hs, acc, ⟨hrun, checked_nil.mpr hcalls⟩,
              parsed, ⟨hparse, checked_nil.mpr halerts⟩, rfl⟩

end reply

/-! ### Failing queries -/

/-- A call returns exactly if it can name what it is about, and a reply is collected to its end
exactly if each of its calls can. -/
theorem alert_failures_iff (alerters : List String) :
    (∀ (a : AlertAnswer) (call : ServiceAlert), Succeeds (call.send alerters a) ↔ call.Named a) ∧
    (∀ (a : AlertAnswer) (alert : Alert), Succeeds (alert.send alerters a) ↔ alert.Named a) ∧
    ∀ (serviceQueries eventQueries : ℕ → AlertAnswer) (col : Collation) (carried : ℕ → Bool)
      (answers : ℕ → Answer) (fp : ℚ) (reply : Option Json) (grabbed : Bool) (agent : AgentClient)
      (tables : ServiceTables) (db : Database) (res : Collected),
      Alerting.collect alerters serviceQueries eventQueries col carried answers fp reply grabbed
          agent tables db = .ok res ↔
        collect col carried answers fp reply grabbed agent tables db = .ok res ∧
          res.AllNamed serviceQueries eventQueries :=
  ⟨fun a call => ServiceAlert.succeeds_send a alerters call,
    fun a alert => Alert.succeeds_send a alerters alert, alerting_collect_eq_ok alerters⟩

/-- The query for the name of the service fails, the others are carried out. -/
def failedName : AlertAnswer where
  tables := { noServices with hosts := [⟨1, "web"⟩], services := [⟨1, 1, none, "db"⟩] }
  ressources := []
  alertServices := fun _ => [("email", "root")]
  alertHosts := fun _ => []
  serviceHost := ⟨true, .done⟩
  titleService := ⟨true, .failed⟩
  titleHost := ⟨true, .done⟩
  titleRessource := ⟨true, .done⟩
  messageService := ⟨true, .done⟩
  messageHost := ⟨true, .done⟩
  messageRessource := ⟨true, .done⟩
  dests := ⟨true, .done⟩
  notice := ⟨true, .done⟩

/-- A service with a new log entry, and one after it. -/
def twoServices : Reply :=
  replyOf 1 [("db", serviceOf "web" [entryOf "app" "Jan 1" 7 "new" "Warning"] [] []),
    ("httpd", serviceOf "web" [] [] [])]

/-- The call for the first service ends with an exception, and the second one is not collected. -/
theorem failed_name_stops_collecting :
    ¬ Succeeds ((ServiceAlert.log 1 1 1 "new\n").send ["email"] failedName) ∧
    (∃ res, collect Collation.binary (fun _ => true) twoServices.answers twoServices.fp
      (some twoServices.data) true twoServices.agent noServices twoServices.db = .ok res ∧
        res.round.tables.services.map ServiceRow.name = ["db", "httpd"]) ∧
    ∀ res, Alerting.collect ["email"] (fun _ => failedName) (fun _ => failedName) Collation.binary
      (fun _ => true) twoServices.answers twoServices.fp (some twoServices.data) true
      twoServices.agent noServices twoServices.db ≠ .ok res := by
  refine ⟨?_, ?_, ?_⟩
  · have hcall : (ServiceAlert.log 1 1 1 "new\n").send ["email"] failedName = .error .logicError :=
      rfl
    rw [hcall]
    exact not_succeeds_error _
  · apply exists_ok_of_toOption_map
    decide +kernel
  · intro res h
    have hnone : ((Alerting.collect ["email"] (fun _ => failedName) (fun _ => failedName)
        Collation.binary (fun _ => true) twoServices.answers twoServices.fp (some twoServices.data)
        true twoServices.agent noServices twoServices.db).toOption.map fun _ => ()) = none := by
      decide +kernel
    rw [h] at hnone
    cases hnone

/-! ### Queries that are carried out -/

structure AlertAnswer.CarriedOut (a : AlertAnswer) : Prop where
  serviceHost : a.serviceHost = ⟨true, .done⟩
  titleService : a.titleService = ⟨true, .done⟩
  titleHost : a.titleHost = ⟨true, .done⟩
  titleRessource : a.titleRessource = ⟨true, .done⟩
  messageService : a.messageService = ⟨true, .done⟩
  messageHost : a.messageHost = ⟨true, .done⟩
  messageRessource : a.messageRessource = ⟨true, .done⟩
  dests : a.dests = ⟨true, .done⟩
  notice : a.notice = ⟨true, .done⟩

section carriedOut

variable {a : AlertAnswer} (alerters : List String)

theorem selectName_done {α : Type} {found : α → Bool} {name : α → String} {rows : List α}
    (h : ∃ row ∈ rows, found row = true) :
    selectName found name rows .done = .ok (((rows.find? found).map name).getD "") := by
  obtain ⟨row, hrow⟩ := Option.isSome_iff_exists.mp (List.find?_isSome.mpr h)
  simp [selectName, selectFirst, hrow]

theorem getServiceName_done {hostId servId : ℕ} (h : a.HasService hostId servId) :
    a.getServiceName hostId servId ⟨true, .done⟩ = .ok (a.tables.getServiceName hostId servId) := by
  unfold AlertAnswer.getServiceName
  rw [if_pos rfl]
  apply selectName_done
  simpa only [decide_eq_true_eq, AlertAnswer.HasService] using h

theorem getHostName_done {hostId : ℕ} (h : a.HasHost hostId) :
    a.getHostName hostId ⟨true, .done⟩ = .ok (a.tables.getHostName hostId) := by
  unfold AlertAnswer.getHostName
  rw [if_pos rfl]
  apply selectName_done
  simpa only [decide_eq_true_eq, AlertAnswer.HasHost] using h

/-- The name of a resource by its id. -/
def AlertAnswer.nameOf (a : AlertAnswer) (resId : ℕ) : String :=
  ((a.ressources.find? fun row => row.id = resId).map RessourceRow.name).getD ""

theorem getRessourceName_done {resId : ℕ} (h : a.HasRessource resId) :
    a.getRessourceName resId ⟨true, .done⟩ = .ok (a.nameOf resId) := by
  unfold AlertAnswer.getRessourceName
  rw [if_pos rfl]
  apply selectName_done
  simpa only [decide_eq_true_eq, AlertAnswer.HasRessource] using h

theorem deliver_done {dests : List (String × String)} {notice : Except Fault String}
    (ha : a.dests = ⟨true, .done⟩) (h : dests = [] → Succeeds notice) (level : ℕ)
    (title message : String) :
    a.deliver alerters dests notice level title message =
      .ok (dests.flatMap fun d => send alerters ⟨level, d.1, d.2, title, message⟩) := by
  unfold AlertAnswer.deliver
  rw [ha]
  cases dests with
  | nil =>
      obtain ⟨name, rfl⟩ := h rfl
      rfl
  | cons d dests => rfl

/-- Of a service that can be named, the calls send what they send without failures. -/
theorem ServiceAlert.send_carriedOut (ha : a.CarriedOut) (call : ServiceAlert) (h : call.Named a) :
    call.send alerters a = .ok (call.deliveries alerters a.tables a.alertServices) := by
  cases call with
  | service hostId servId msg =>
      apply deliver_done alerters ha.dests
      intro hempty
      rw [ha.notice]
      exact ⟨_, getServiceName_done (h (by rw [ha.dests]) (by rw [ha.dests]) hempty
        (by rw [ha.notice]) (by rw [ha.notice]))⟩
  | log hostId servId level lines =>
      obtain ⟨hservice, hhost, -⟩ := h
      have hname := getServiceName_done (hservice (by rw [ha.titleService])).2
      have hhostName := getHostName_done (hhost (by rw [ha.titleHost])).2
      unfold ServiceAlert.send AlertAnswer.sendLog
      dsimp only
      rw [ha.titleService, ha.titleHost, ha.notice, hname, hhostName, ok_bind, ok_bind]
      exact deliver_done alerters ha.dests (fun _ => ⟨_, rfl⟩) _ _ _

theorem Alert.send_carriedOut (ha : a.CarriedOut) (alert : Alert) (h : alert.Named a) :
    alert.send alerters a = .ok
      (if alert.isService then
        sendServRessource alerters a.tables a.nameOf a.alertServices alert.ownerId alert.resId
          alert.event alert.current
      else
        sendHostRessource alerters a.tables a.nameOf a.alertHosts alert.ownerId alert.resId
          alert.event alert.current) := by
  unfold Alert.Named at h
  unfold Alert.send
  split at h
  · next hisService =>
    obtain ⟨hread, hservice, hhost, hressource, -⟩ := h
    have hid := (getServiceHost_eq_ok a _ alert.ownerId).mpr ⟨hread, rfl⟩
    have hname := getServiceName_done (hservice (by rw [ha.titleService])).2
    have hhostName := getHostName_done (hhost (by rw [ha.titleHost])).2
    have hressourceName := getRessourceName_done hressource.2.2
    have hhostId : a.hostRead alert.ownerId = a.tables.getServiceHost alert.ownerId := by
      rw [AlertAnswer.hostRead, ha.serviceHost]
      exact if_pos ⟨rfl, rfl⟩
    rw [if_pos hisService, if_pos hisService]
    unfold AlertAnswer.sendServRessource sendServRessource
    rw [hid, ok_bind, ha.titleService, ha.titleHost, ha.titleRessource, ha.messageService,
      ha.messageHost, ha.messageRessource, ha.notice, hname, hhostName, hressourceName, ← hhostId]
    exact deliver_done alerters ha.dests (fun _ => ⟨_, rfl⟩) _ _ _
  · next hisHost =>
    obtain ⟨hhost, hressource, -⟩ := h
    have hhostName := getHostName_done (hhost (by rw [ha.titleHost])).2
    have hressourceName := getRessourceName_done hressource.2.2
    rw [if_neg hisHost, if_neg hisHost]
    unfold AlertAnswer.sendHostRessource sendHostRessource
    rw [ha.titleHost, ha.titleRessource, ha.messageHost, ha.messageRessource, ha.notice, hhostName,
      hressourceName]
    exact deliver_done alerters ha.dests (fun _ => ⟨_, rfl⟩) _ _ _

end carriedOut

end WatchedBack
