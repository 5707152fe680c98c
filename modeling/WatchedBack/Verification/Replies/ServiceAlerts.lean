import WatchedBack.Verification.Replies.Outcome
import WatchedBack.Verification.Rounds.Missing

/-! # Service alerts

`sendService` is called for a failure that is unlike the last report of its component. -/

namespace WatchedBack

open Fallible Reports

/-! ### History rows -/

/-- The rows of `s$history`. -/
def historyStore : KeyedRows HistoryRow where
  same x y := y.servId = x.servId ∧ y.timestamp = x.timestamp
  refl x := by simp
  symm h := by
    simp only [decide_eq_true_eq] at h ⊢
    exact ⟨h.1.symm, h.2.symm⟩
  trans h h' := by
    simp only [decide_eq_true_eq] at h h' ⊢
    exact ⟨h'.1.trans h.1, h'.2.trans h.2⟩
  set x r := { r with failed := x.failed, ok := x.ok }
  same_set _ _ _ := rfl
  set_self _ := rfl
  set_set _ _ _ := rfl

section history

variable {fp : ℚ} {t : ServiceTables} {reports : List ServiceReport}

theorem historyStore_same {x y : HistoryRow} :
    historyStore.same x y = true ↔ y.servId = x.servId ∧ y.timestamp = x.timestamp :=
  decide_eq_true_iff

theorem recordHistory_history (fp : ℚ) (t : ServiceTables) (reports : List ServiceReport) :
    (recordHistory fp t reports).history =
      (reports.map fun report => report.historyRow fp).foldl historyStore.put t.history := by
  induction reports generalizing t with
  | nil => rfl
  | cons report reports ih => exact ih (t.insertHistory (report.historyRow fp))

theorem insertMissing_history (t : ServiceTables) (hostId : ℕ) (fp : ℚ) :
    (t.insertMissing hostId fp).history = t.history ++ t.missingRows hostId fp := by
  rw [ServiceTables.missingRows, ServiceTables.insertMissing, List.drop_left]

/-- Missing statements add rows of their time, of services that are not in the history from the time
on. -/
theorem foldl_insertMissing_history (fp : ℚ) (known : List ℕ) (t : ServiceTables) :
    ∃ added, (known.foldl (fun t hostId => t.insertMissing hostId fp) t).history =
        t.history ++ added ∧
      ∀ row ∈ added, row.timestamp = fp ∧ ¬ t.SeenSince row.servId fp := by
  induction known generalizing t with
  | nil => exact ⟨[], by simp⟩
  | cons hostId known ih =>
      obtain ⟨added, hadded, hunseen⟩ := ih (t.insertMissing hostId fp)
      refine ⟨t.missingRows hostId fp ++ added, ?_, fun row hrow => ?_⟩
      · rw [List.foldl_cons, hadded, insertMissing_history, List.append_assoc]
      · rcases List.mem_append.mp hrow with hrow | hrow
        · obtain ⟨s, -, ⟨-, hs⟩, rfl⟩ := ServiceTables.mem_missingRows.mp hrow
          exact ⟨rfl, hs⟩
        · have hlater : t.Later .binary (t.insertMissing hostId fp) :=
            ServiceTables.later_insertMissing t hostId fp
          obtain ⟨htime, hnew⟩ := hunseen row hrow
          exact ⟨htime, fun hseen => hnew (hlater.seen _ _ hseen)⟩

/-- After the reports of a reply, every row of a service and the time of the reply has the counts
of the last report of the service, and there is one. -/
theorem counts_of_reports {hosts : List ℕ} {t' : ServiceTables}
    {before after : List ServiceReport} {report : ServiceReport}
    (hhistory : t'.history = (recordHistory fp t (before ++ report :: after)).history)
    (hlast : ∀ other ∈ after, other.servId ≠ report.servId) :
    (∃ row ∈ (missingStatements fp hosts t').history,
      row.servId = report.servId ∧ row.timestamp = fp) ∧
    ∀ row ∈ (missingStatements fp hosts t').history, row.servId = report.servId →
      row.timestamp = fp → row.failed = report.failed ∧ row.ok = report.ok := by
  obtain ⟨added, hadded, hunseen⟩ := foldl_insertMissing_history fp _ t'
  rw [missingStatements, hadded]
  rw [recordHistory_history] at hhistory
  let rows := (before ++ report :: after).map fun report => report.historyRow fp
  have hmem : report.historyRow fp ∈ rows := by
    apply List.mem_map_of_mem
    exact List.mem_append_right _ List.mem_cons_self
  have hrow : ∃ row ∈ t'.history, row.servId = report.servId ∧ row.timestamp = fp := by
    have hseen : historyStore.seenIn t'.history (report.historyRow fp) = true := by
      rw [hhistory, KeyedRows.seenIn_foldl_put, Likeness.seenIn_append, Likeness.seenIn_of_mem hmem,
        Bool.or_true]
    obtain ⟨row, hrow, hsame⟩ := Likeness.seenIn_iff.mp hseen
    exact ⟨row, hrow, historyStore_same.mp hsame⟩
  constructor
  · obtain ⟨row, hrow, hkey⟩ := hrow
    exact ⟨row, List.mem_append_left _ hrow, hkey⟩
  · intro row hrow' hservId htimestamp
    rcases List.mem_append.mp hrow' with hold | hnew
    · -- the last report of the row's key is that of the service
      have hlastRow : historyStore.last rows row = some (report.historyRow fp) := by
        have hafter : historyStore.last (after.map fun report => report.historyRow fp) row = none := by
          rw [Likeness.last_eq_none_iff, Likeness.seenIn, List.any_eq_false]
          intro later hlater hsame
          obtain ⟨other, hother, rfl⟩ := List.mem_map.mp hlater
          exact hlast other hother ((historyStore_same.mp hsame).1.trans hservId)
        have hsame : historyStore.same row (report.historyRow fp) = true :=
          historyStore_same.mpr ⟨hservId.symm, htimestamp.symm⟩
        have hrows : rows = (before.map fun report => report.historyRow fp) ++
            ([report.historyRow fp] ++ after.map fun report => report.historyRow fp) :=
          List.map_append
        rw [hrows, Likeness.last_append, Likeness.last_append, hafter, Likeness.last_singleton,
          if_pos hsame]
        rfl
      rw [hhistory] at hold
      have hset : historyStore.set (report.historyRow fp) row = row :=
        KeyedRows.set_last hold hlastRow
      rw [← hset]
      exact ⟨rfl, rfl⟩
    · obtain ⟨old, hold, hkey⟩ := hrow
      refine absurd ⟨old, hold, hkey.1.trans hservId.symm, hkey.2.ge⟩ (hunseen row hnew).2

end history

/-! ### The calls -/

namespace Outcome

variable {col : Collation} {t t' t'' : ServiceTables} {reports reports' : List ServiceReport}
  {alerts alerts' : List ServiceAlert}

/-- The calls of the last of some reports. -/
theorem serviceCalls_after (h : Outcome col t reports t' alerts)
    (h' : Outcome col t' reports' t'' alerts') : alerts'.filterMap ServiceAlert.serviceCall =
      inTurn ServiceReport.components (fun seen report => report.serviceCalls col t seen)
        (reports.flatMap ServiceReport.components) reports' := by
  have hall := (h.trans h').serviceCalls
  rw [List.filterMap_append, inTurn_append, h.serviceCalls, List.nil_append] at hall
  exact List.append_cancel_left hall

end Outcome

/-- Whatever replies come one after the other: a reply calls `sendService` for exactly those of its
services that have a component which is not well and whose status differs from that of the last
report of its kind and name, in an earlier reply or earlier in this one, or of which there is no
report and which was not stored so before the replies. The message has the number of the
components that are not well, and the history row this number and that of those that are. -/
theorem service_alerts_edge_triggered (col : Collation) (t : ServiceTables) {before : List Reply}
    {reply : Reply} (hok : ∀ r ∈ before ++ [reply], r.Ok) :
    ∃ m m' alerts, handleAll col t before = .ok m ∧ m.handle col reply = .ok m' ∧
      m'.alerts = m.alerts ++ alerts ∧
      alerts.filterMap ServiceAlert.serviceCall =
        inTurn ServiceReport.components
          (fun seen report =>
            if report.Announces col t seen then
              [(report.hostId, report.servId, "Service " ++ report.name ++ " on " ++ report.host ++
                " have " ++ toString (report.components.countP fun c => c.status ≠ "ok") ++
                " failed componant")]
            else [])
          ((before.flatMap fun r => r.reports col m'.tables).flatMap ServiceReport.components)
          (reply.reports col m'.tables) ∧
      ∀ reports report reports', reply.reports col m'.tables = reports ++ report :: reports' →
        (∀ other ∈ reports', other.servId ≠ report.servId) →
          (∃ row ∈ m'.tables.history, row.servId = report.servId ∧ row.timestamp = reply.fp) ∧
          ∀ row ∈ m'.tables.history, row.servId = report.servId → row.timestamp = reply.fp →
            row.failed = report.components.countP (fun c => c.status ≠ "ok") ∧
              row.ok = report.components.countP fun c => c.status = "ok" := by
  obtain ⟨m, m', alerts, hm, hm', halerts, hbefore, hreply⟩ := handleAll_then_outcome col hok t
  refine ⟨m, m', alerts, hm, hm', halerts, hbefore.serviceCalls_after hreply, ?_⟩
  intro reports report reports' hsplit hlast
  obtain ⟨t', -, m'', hm'', -, -, -, hhistory, htables⟩ :=
    handle_spec col (hok reply (List.mem_append_right _ (List.mem_singleton_self reply))) m
  rw [hm'] at hm''
  cases hm''
  have hok : report.ok = report.components.countP fun c => c.status = "ok" := by
    rw [ServiceReport.ok]
    apply List.countP_congr
    intro c _
    simp [Component.failed]
  rw [htables, ← hok]
  rw [hsplit] at hhistory ⊢
  exact counts_of_reports hhistory hlast

/-! ### A socket that fails -/

/-- The sockets of a service. -/
def socketReply (fp : ℚ) (sockets : List Json) : Reply :=
  replyOf fp [("db", serviceOf "web" [] [] sockets)]

theorem socketReply_ok (fp : ℚ) {sockets : List Json} (h : ∀ p ∈ sockets, SocketOk p) :
    (socketReply fp sockets).Ok := by
  apply replyOf_ok
  intro service hservice
  rw [List.mem_singleton.mp hservice]
  exact serviceOk_serviceOf "web" (by simp) (by simp) h

theorem service_alerts_edge_triggered_socket : ∃ m m' alerts,
    handleAll .binary noServices [socketReply 10 [socketOf "5432" "ok"]] = .ok m ∧
      m.handle .binary (socketReply 20 [socketOf "5432" "closed"]) = .ok m' ∧
      m'.alerts = m.alerts ++ alerts ∧
      alerts.filterMap ServiceAlert.serviceCall =
        [(1, 1, "Service db on web have 1 failed componant")] := by
  have hok : ∀ r ∈ [socketReply 10 [socketOf "5432" "ok"]] ++
      [socketReply 20 [socketOf "5432" "closed"]], r.Ok := by
    intro r hr
    simp only [List.cons_append, List.nil_append, List.mem_cons, List.not_mem_nil, or_false] at hr
    rcases hr with rfl | rfl
    · exact socketReply_ok 10 (by simp [socketOk_socketOf])
    · exact socketReply_ok 20 (by simp [socketOk_socketOf])
  obtain ⟨m, m', alerts, hm, hm', halerts, -⟩ :=
    service_alerts_edge_triggered .binary noServices hok
  refine ⟨m, m', alerts, hm, hm', halerts, ?_⟩
  have hfirst : ((handleAll .binary noServices [socketReply 10 [socketOf "5432" "ok"]]).toOption.map
      fun s => s.alerts.filterMap ServiceAlert.serviceCall) = some [] := by
    decide +kernel
  have hboth : (((handleAll .binary noServices [socketReply 10 [socketOf "5432" "ok"]]) >>= fun s =>
      s.handle .binary (socketReply 20 [socketOf "5432" "closed"])).toOption.map fun s =>
        s.alerts.filterMap ServiceAlert.serviceCall) =
          some [(1, 1, "Service db on web have 1 failed componant")] := by
    decide +kernel
  rw [hm] at hfirst hboth
  rw [ok_bind, hm'] at hboth
  simp only [Except.toOption, Option.map_some, Option.some.injEq, halerts, List.filterMap_append]
    at hfirst hboth
  rwa [hfirst] at hboth

end WatchedBack
