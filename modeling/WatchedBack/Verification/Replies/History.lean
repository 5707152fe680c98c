import WatchedBack.Verification.Replies.Repeated

/-! # The history of a round

A reported service gets its row at the end of its iteration. The missing statements are made for
the hosts of the reported services only, and give a row to the services of these hosts that have
none. -/

namespace WatchedBack

open Fallible Reports

/-! ### What a round should record -/

/-- The number of processes and sockets of a service that are not well. -/
def failedCount (service : String × Json) : ℕ :=
  (service.2.elementsAt ["status", "process"] ++ service.2.elementsAt ["status", "sockets"]).countP
    fun p => p.text "status" ≠ "ok"

def okCount (service : String × Json) : ℕ :=
  (service.2.elementsAt ["status", "process"] ++ service.2.elementsAt ["status", "sockets"]).countP
    fun p => p.text "status" = "ok"

/-- The rows of a service at a time. -/
def ServiceTables.historyAt (t : ServiceTables) (servId : ℕ) (timestamp : ℚ) : List HistoryRow :=
  t.history.filter fun row => row.servId = servId ∧ row.timestamp = timestamp

/-- The reply does not have the service. -/
def Reply.Lacks (col : Collation) (reply : Reply) (service : String × Json) : Prop :=
  ∀ reported ∈ reply.services, ¬ Rounds.SameName col (fullName reported) (fullName service)

/-- After the round of a reply, each service of an earlier reply that it lacks has one row of the
round, with the number of its components as missing, and each of its own services one row with its
own counts. -/
structure RoundRecorded (col : Collation) (t : ServiceTables) (before : List Reply)
    (reply : Reply) : Prop where
  missing : ∀ earlier ∈ before, ∀ service ∈ earlier.services, reply.Lacks col service →
    ∃ id, t.findService col (fullName service) = some id ∧
      t.historyAt id reply.fp = [⟨id, reply.fp, 0, t.components id, 0⟩]
  reported : ∀ service ∈ reply.services, ∃ id, t.findService col (fullName service) = some id ∧
    t.historyAt id reply.fp = [⟨id, reply.fp, failedCount service, 0, okCount service⟩]

/-- Each service of an earlier reply that the reply lacks is of a host of which it has a service,
and what the reply has under the names of one service has the same counts. -/
structure RoundComplete (col : Collation) (before : List Reply) (reply : Reply) : Prop where
  hosts : ∀ earlier ∈ before, ∀ service ∈ earlier.services, reply.Lacks col service →
    ∃ reported ∈ reply.services, col.same (logsHost reported) (logsHost service) = true
  counts : ∀ service ∈ reply.services, ∀ service' ∈ reply.services,
    Rounds.SameName col (fullName service) (fullName service') →
      failedCount service = failedCount service' ∧ okCount service = okCount service'

/-! ### The rows of reports -/

section rows

variable {col : Collation} {fp : ℚ} {t : ServiceTables} {reports : List ServiceReport}

/-- Every row is that of an old key, or of a report. -/
theorem key_of_recordHistory {row : HistoryRow} (h : row ∈ (recordHistory fp t reports).history) :
    (∃ old ∈ t.history, old.servId = row.servId ∧ old.timestamp = row.timestamp) ∨
      ∃ report ∈ reports, report.servId = row.servId ∧ row.timestamp = fp := by
  rw [recordHistory_history] at h
  have hseen := Likeness.seenIn_of_mem (L := historyStore.toLikeness) h
  rw [KeyedRows.seenIn_foldl_put] at hseen
  obtain ⟨x, hx, hsame⟩ := Likeness.seenIn_iff.mp hseen
  obtain ⟨hid, htime⟩ := historyStore_same.mp hsame
  rcases List.mem_append.mp hx with hx | hx
  · exact Or.inl ⟨x, hx, hid, htime⟩
  · obtain ⟨report, hreport, rfl⟩ := List.mem_map.mp hx
    exact Or.inr ⟨report, hreport, hid, htime.symm⟩

/-- Where no row is of the time yet, a reported service has the counts of its last report. -/
theorem historyAt_recordHistory (hpast : ∀ row ∈ t.history, row.timestamp < fp) (servId : ℕ) :
    (recordHistory fp t reports).historyAt servId fp =
      (historyStore.last (reports.map fun report => report.historyRow fp)
        ⟨servId, fp, 0, 0, 0⟩).toList := by
  have hnew : historyStore.seenIn t.history ⟨servId, fp, 0, 0, 0⟩ = false := by
    rw [Likeness.seenIn, List.any_eq_false]
    intro row hrow hsame
    exact absurd (historyStore_same.mp hsame).2 (hpast row hrow).ne
  change (recordHistory fp t reports).history.filter
    (historyStore.same ⟨servId, fp, 0, 0, 0⟩) = _
  rw [recordHistory_history]
  apply KeyedRows.filter_foldl_put hnew
  intro x hx x' hx' hsame
  obtain ⟨report, -, rfl⟩ := List.mem_map.mp hx
  obtain ⟨report', -, rfl⟩ := List.mem_map.mp hx'
  have hid : report'.servId = report.servId := (historyStore_same.mp hsame).1
  simp only [historyStore, ServiceReport.historyRow, hid]

end rows

/-! ### The rows of the missing statements -/

section missing

variable {fp : ℚ} {t : ServiceTables}

/-- What has a row of the time is left alone. -/
theorem historyAt_of_seen (known : List ℕ) {servId : ℕ} (h : t.SeenSince servId fp) :
    (known.foldl (fun t hostId => t.insertMissing hostId fp) t).historyAt servId fp =
      t.historyAt servId fp := by
  obtain ⟨added, hadded, hunseen⟩ := foldl_insertMissing_history fp known t
  rw [ServiceTables.historyAt, hadded, List.filter_append]
  have hnone : added.filter (fun row => row.servId = servId ∧ row.timestamp = fp) = [] := by
    rw [List.filter_eq_nil_iff]
    intro row hrow hkey
    rw [decide_eq_true_eq] at hkey
    apply (hunseen row hrow).2
    rw [hkey.1]
    exact h
  rw [hnone, List.append_nil]
  rfl

theorem filter_id_of_nodup {rows : List ServiceRow} {s : ServiceRow}
    (h : (rows.map ServiceRow.id).Nodup) (hs : s ∈ rows) :
    rows.filter (fun row => row.id = s.id) = [s] := by
  induction rows with
  | nil => cases hs
  | cons row rows ih =>
      obtain ⟨hrow, hrows⟩ := List.nodup_cons.mp h
      rw [List.filter_cons]
      rcases List.mem_cons.mp hs with rfl | hs
      · have hnone : rows.filter (fun row => row.id = s.id) = [] := by
          rw [List.filter_eq_nil_iff]
          intro other hother hid
          rw [decide_eq_true_eq] at hid
          apply hrow
          rw [← hid]
          exact List.mem_map_of_mem hother
        rw [hnone]
        simp
      · have hne : row.id ≠ s.id := by
          intro hid
          apply hrow
          rw [hid]
          exact List.mem_map_of_mem hs
        rw [if_neg (by simpa using hne), ih hrows hs]

/-- One missing statement gives the services of its host that have no row one. -/
theorem historyAt_insertMissing (hkeyed : t.Keyed) {s : ServiceRow} (hs : s ∈ t.services)
    (hunseen : ¬ t.SeenSince s.id fp) (hostId : ℕ) :
    (t.insertMissing hostId fp).historyAt s.id fp =
      if s.hostId = hostId then [⟨s.id, fp, 0, t.components s.id, 0⟩] else [] := by
  have hold : t.historyAt s.id fp = [] := by
    rw [ServiceTables.historyAt, List.filter_eq_nil_iff]
    intro row hrow hkey
    rw [decide_eq_true_eq] at hkey
    exact hunseen ⟨row, hrow, hkey.1, hkey.2.ge⟩
  have hlate : ¬ t.history.any (fun row => row.servId = s.id ∧ fp ≤ row.timestamp) = true := by
    intro hany
    obtain ⟨row, hrow, hkey⟩ := List.any_eq_true.mp hany
    exact hunseen ⟨row, hrow, of_decide_eq_true hkey⟩
  rw [ServiceTables.historyAt, ServiceTables.insertMissing, List.filter_append]
  change t.historyAt s.id fp ++ _ = _
  rw [hold, List.nil_append, List.filter_map]
  have hkey : (fun row : HistoryRow => decide (row.servId = s.id ∧ row.timestamp = fp)) ∘
      (fun s : ServiceRow => (⟨s.id, fp, 0, t.process.countP (fun r => r.servId = s.id) +
        t.sockets.countP (fun r => r.servId = s.id), 0⟩ : HistoryRow)) =
      fun row => decide (row.id = s.id) := by
    funext row
    simp
  rw [hkey, List.filter_comm, filter_id_of_nodup hkeyed.services hs, List.filter_singleton]
  by_cases hhost : s.hostId = hostId
  · rw [if_pos hhost]
    simp only [hhost, hlate]
    rfl
  · rw [if_neg hhost]
    simp [hhost]

/-- A service without a row gets one if its host is among those of the statements. -/
theorem historyAt_of_unseen (hkeyed : t.Keyed) {s : ServiceRow} (hs : s ∈ t.services)
    (hunseen : ¬ t.SeenSince s.id fp) (known : List ℕ) :
    (known.foldl (fun t hostId => t.insertMissing hostId fp) t).historyAt s.id fp =
      if s.hostId ∈ known then [⟨s.id, fp, 0, t.components s.id, 0⟩] else [] := by
  induction known generalizing t with
  | nil =>
      rw [List.foldl_nil, if_neg List.not_mem_nil, ServiceTables.historyAt,
        List.filter_eq_nil_iff]
      intro row hrow hkey
      rw [decide_eq_true_eq] at hkey
      exact hunseen ⟨row, hrow, hkey.1, hkey.2.ge⟩
  | cons hostId known ih =>
      have hone := historyAt_insertMissing hkeyed hs hunseen hostId
      rw [List.foldl_cons]
      by_cases hhost : s.hostId = hostId
      · -- the first statement of the host
        rw [if_pos hhost] at hone
        have hseen : (t.insertMissing hostId fp).SeenSince s.id fp := by
          have hmem : ⟨s.id, fp, 0, t.components s.id, 0⟩ ∈
              (t.insertMissing hostId fp).historyAt s.id fp := by
            rw [hone]
            exact List.mem_singleton_self _
          exact ⟨_, List.mem_of_mem_filter hmem, rfl, le_rfl⟩
        rw [historyAt_of_seen known hseen, hone,
          if_pos (List.mem_cons.mpr (Or.inl hhost))]
      · rw [if_neg hhost] at hone
        have hunseen' : ¬ (t.insertMissing hostId fp).SeenSince s.id fp := by
          rintro ⟨row, hrow, hid, htime⟩
          rw [insertMissing_history] at hrow
          rcases List.mem_append.mp hrow with hrow | hrow
          · exact hunseen ⟨row, hrow, hid, htime⟩
          · obtain ⟨other, hother, ⟨hhostId, -⟩, rfl⟩ := ServiceTables.mem_missingRows.mp hrow
            obtain rfl : other = s := List.inj_on_of_nodup_map hkeyed.services hother hs hid
            exact hhost hhostId
        have hkeyed' : (t.insertMissing hostId fp).Keyed := ⟨hkeyed.hosts, hkeyed.services⟩
        rw [ih hkeyed' hs hunseen']
        simp only [List.mem_cons, hhost, false_or]
        rfl

end missing

/-! ### A round -/

section round

variable {col : Collation} {t : ServiceTables}

theorem report_failed (fp : ℚ) (service : String × Json) :
    (t.report col fp service).failed = failedCount service := by
  rw [ServiceReport.failed, failedCount, ServiceReport.components, List.countP_append,
    List.countP_append, List.countP_map, List.countP_map]
  simp only [ServiceTables.report, ServiceReport.read, List.countP_map]
  rfl

theorem report_ok (fp : ℚ) (service : String × Json) :
    (t.report col fp service).ok = okCount service := by
  have hok : (fun c => !Component.failed c) = fun c => decide (c.status = "ok") := by
    funext c
    simp [Component.failed]
  rw [ServiceReport.ok, okCount, ServiceReport.components, hok, List.countP_append,
    List.countP_append, List.countP_map, List.countP_map]
  simp only [ServiceTables.report, ServiceReport.read, List.countP_map]
  rfl

/-- Hosts of one name are found alike. -/
theorem findHost_congr {name name' : String} (h : col.same name name' = true) (t : ServiceTables) :
    t.findHost col name = t.findHost col name' := by
  have hsame (s : String) : col.same s name = col.same s name' := by
    rw [Bool.eq_iff_iff]
    exact ⟨fun hs => col.trans hs h, fun hs => col.trans hs (col.symm h)⟩
  simp only [ServiceTables.findHost, hsame]

/-- The tables in the middle of a round: the reports are recorded, and the missing statements are
still to come. -/
structure MidRound (col : Collation) (t : ServiceTables) (reply : Reply) : Prop where
  keyed : t.Keyed
  found : ∀ service ∈ reply.services,
    t.findHost col (logsHost service) = some (t.report col reply.fp service).hostId ∧
      t.findService col (fullName service) = some (t.report col reply.fp service).servId
  history : ∃ t₀ : ServiceTables, (∀ row ∈ t₀.history, row.timestamp < reply.fp) ∧
    t.history = (recordHistory reply.fp t₀ (reply.reports col t)).history

variable {reply : Reply}

/-- A service of the reply has the counts of one of that name. -/
theorem MidRound.reported (h : MidRound col t reply) {service : String × Json}
    (hmem : service ∈ reply.services) (known : List ℕ) :
    ∃ id, t.findService col (fullName service) = some id ∧
      ∃ service' ∈ reply.services, Rounds.SameName col (fullName service') (fullName service) ∧
        (known.foldl (fun t hostId => t.insertMissing hostId reply.fp) t).historyAt id reply.fp =
          [⟨id, reply.fp, failedCount service', 0, okCount service'⟩] := by
  obtain ⟨t₀, hpast, hhistory⟩ := h.history
  obtain ⟨-, hservice⟩ := h.found service hmem
  let id := (t.report col reply.fp service).servId
  let rows := (reply.reports col t).map fun report => report.historyRow reply.fp
  have hrows : t.historyAt id reply.fp =
      (historyStore.last rows ⟨id, reply.fp, 0, 0, 0⟩).toList := by
    rw [ServiceTables.historyAt, hhistory]
    exact historyAt_recordHistory hpast id
  -- the last report of the service
  have hown : historyStore.seenIn rows ⟨id, reply.fp, 0, 0, 0⟩ = true := by
    apply Likeness.seenIn_iff.mpr
    refine ⟨(t.report col reply.fp service).historyRow reply.fp, ?_, historyStore_same.mpr ⟨rfl, rfl⟩⟩
    exact List.mem_map_of_mem (List.mem_map_of_mem hmem)
  obtain ⟨x, hx⟩ := Likeness.exists_last hown
  obtain ⟨hxmem, hsame⟩ := Likeness.last_spec hx
  obtain ⟨report, hreport, rfl⟩ := List.mem_map.mp hxmem
  obtain ⟨service', hmem', rfl⟩ := List.mem_map.mp hreport
  have hid : (t.report col reply.fp service').servId = id := (historyStore_same.mp hsame).1
  obtain ⟨-, hservice'⟩ := h.found service' hmem'
  rw [hid] at hservice'
  refine ⟨id, hservice, service', hmem', findService_inj h.keyed hservice' hservice, ?_⟩
  rw [hx] at hrows
  have hseen : t.SeenSince id reply.fp := by
    have hrow : (t.report col reply.fp service').historyRow reply.fp ∈ t.historyAt id reply.fp := by
      rw [hrows]
      exact List.mem_singleton_self _
    exact ⟨_, List.mem_of_mem_filter hrow, hid, le_rfl⟩
  rw [historyAt_of_seen known hseen, hrows, ← report_failed, ← report_ok, ← hid]
  rfl

/-- A known service that the reply lacks gets a row exactly if the reply has one of its host. -/
theorem MidRound.missing (h : MidRound col t reply) {service : String × Json} {id : ℕ}
    (hknown : t.findService col (fullName service) = some id) (hlacks : reply.Lacks col service) :
    let t' := missingStatements reply.fp ((reply.reports col t).map ServiceReport.hostId).reverse t
    ((∃ reported ∈ reply.services, col.same (logsHost reported) (logsHost service) = true) →
        t'.historyAt id reply.fp = [⟨id, reply.fp, 0, t.components id, 0⟩]) ∧
      ((¬ ∃ reported ∈ reply.services, col.same (logsHost reported) (logsHost service) = true) →
        t'.historyAt id reply.fp = []) := by
  intro t'
  obtain ⟨t₀, hpast, hhistory⟩ := h.history
  obtain ⟨row, hrow, rfl, hhost, -⟩ := findService_row hknown
  have hunseen : ¬ t.SeenSince row.id reply.fp := by
    rintro ⟨old, hold, hid, htime⟩
    rw [hhistory] at hold
    rcases key_of_recordHistory hold with ⟨past, hmem, -, hpastTime⟩ | ⟨report, hmem, hreport, -⟩
    · have hlt := hpast past hmem
      rw [hpastTime] at hlt
      exact absurd htime (not_le.mpr hlt)
    · obtain ⟨reported, hreported, rfl⟩ := List.mem_map.mp hmem
      obtain ⟨-, hfound⟩ := h.found reported hreported
      rw [hreport, hid] at hfound
      exact hlacks reported hreported (findService_inj h.keyed hfound hknown)
  have hhosts : row.hostId ∈ ((reply.reports col t).map ServiceReport.hostId).reverse.dedup.insertionSort
      (· ≤ ·) ↔
        ∃ reported ∈ reply.services, col.same (logsHost reported) (logsHost service) = true := by
    rw [List.mem_insertionSort, List.mem_dedup, List.mem_reverse, Reply.reports, List.map_map,
      List.mem_map]
    apply exists_congr
    intro reported
    apply and_congr_right
    intro hreported
    obtain ⟨hfound, -⟩ := h.found reported hreported
    constructor
    · intro heq
      have hid : (t.report col reply.fp reported).hostId = row.hostId := heq
      rw [hid] at hfound
      exact findHost_inj h.keyed hfound hhost
    · intro hsame
      rw [findHost_congr hsame t] at hfound
      exact Option.some.inj (hfound.symm.trans hhost)
  have hall := historyAt_of_unseen h.keyed hrow hunseen
    (((reply.reports col t).map ServiceReport.hostId).reverse.dedup.insertionSort (· ≤ ·))
  constructor
  · intro hsame
    rw [if_pos (hhosts.mpr hsame)] at hall
    exact hall
  · intro hnone
    rw [if_neg (fun hmem => hnone (hhosts.mp hmem))] at hall
    exact hall

end round

/-! ### Runs -/

section runs

variable {col : Collation} {t : ServiceTables}

/-- The history of replies is past for a later one. -/
theorem history_past {replies : List Reply} (hok : ∀ reply ∈ replies, reply.Ok) {fp : ℚ}
    (hpast : ∀ row ∈ t.history, row.timestamp < fp) (htimes : ∀ reply ∈ replies, reply.fp < fp)
    {s : ReplyState} (hrun : handleAll col t replies = .ok s) :
    ∀ row ∈ s.tables.history, row.timestamp < fp := by
  refine foldlM_invariant (fun s : ReplyState => ∀ row ∈ s.tables.history, row.timestamp < fp)
    (fun s s' reply hmem hold hstep => ?_) hpast hrun
  obtain ⟨t', -, m, hm, -, -, -, hhistory, htables⟩ := handle_spec col (hok reply hmem) s
  rw [hstep] at hm
  cases hm
  obtain ⟨added, hadded, hnew⟩ := foldl_insertMissing_history reply.fp
    (((reply.reports col s'.tables).map ServiceReport.hostId).reverse.dedup.insertionSort (· ≤ ·)) t'
  rw [htables, missingStatements, hadded, hhistory]
  intro row hrow
  rcases List.mem_append.mp hrow with hrow | hrow
  · rcases key_of_recordHistory hrow with ⟨old, hmem', -, htime⟩ | ⟨report, -, -, htime⟩
    · rw [← htime]
      exact hold old hmem'
    · rw [htime]
      exact htimes reply hmem
  · rw [(hnew row hrow).1]
    exact htimes reply hmem

/-- The tables in the middle of the last round, which know the services of the earlier ones. -/
theorem exists_midRound {before : List Reply} {reply : Reply} (hkeyed : t.Keyed)
    (hok : ∀ r ∈ before ++ [reply], r.Ok)
    (hpast : ∀ row ∈ t.history, row.timestamp < reply.fp)
    (htimes : ∀ r ∈ before, r.fp < reply.fp) {s : ReplyState}
    (hrun : handleAll col t (before ++ [reply]) = .ok s) :
    ∃ mid : ServiceTables, MidRound col mid reply ∧
      s.tables = missingStatements reply.fp
        ((reply.reports col mid).map ServiceReport.hostId).reverse mid ∧
      ∀ earlier ∈ before, ∀ service ∈ earlier.services,
        ∃ id, mid.findService col (fullName service) = some id := by
  obtain ⟨hbefore, hreply⟩ := List.forall_mem_append.mp hok
  obtain ⟨m, hm, hlast⟩ := foldlM_append_eq_ok.mp hrun
  obtain ⟨m', hm', houtcome⟩ := handleAll_outcome col hbefore t
  rw [handleAll, hm] at hm'
  cases hm'
  obtain ⟨mid, alerts, s', hs', -, hreports, hone, hhistory, htables⟩ :=
    handle_spec col (hreply reply (List.mem_singleton_self reply)) m
  obtain ⟨s'', hs'', hnil⟩ := foldlM_cons_eq_ok.mp hlast
  rw [hs'] at hs''
  cases hs''
  cases hnil
  -- the missing statements change no id
  have hmid : reply.reports col mid = reply.reports col s.tables := by
    apply hreports
    rw [htables, missingStatements_frame]
    exact ⟨fun _ _ h => h, fun _ _ h => h⟩
  rw [← hmid] at hone hhistory htables
  refine ⟨mid, ⟨?_, fun service hmem => ?_, ?_⟩, htables, fun earlier hmem service hservice => ?_⟩
  · exact hone.keyed ((houtcome _ (.refl _)).keyed hkeyed)
  · exact hone.found _ (List.mem_map_of_mem hmem)
  · exact ⟨m.tables, history_past hbefore hpast htimes hm, hhistory⟩
  · have hall := (houtcome mid hone.known).found (mid.report col earlier.fp service)
      (List.mem_flatMap_of_mem hmem (List.mem_map_of_mem hservice))
    exact ⟨_, hone.known.service _ _ hall.2⟩

/-- Where the history of the tables is past, a round records what it should exactly if it is
complete. -/
theorem round_recorded_iff {before : List Reply} {reply : Reply} (hkeyed : t.Keyed)
    (hok : ∀ r ∈ before ++ [reply], r.Ok)
    (hpast : ∀ row ∈ t.history, row.timestamp < reply.fp)
    (htimes : ∀ r ∈ before, r.fp < reply.fp) {s : ReplyState}
    (hrun : handleAll col t (before ++ [reply]) = .ok s) :
    RoundRecorded col s.tables before reply ↔ RoundComplete col before reply := by
  obtain ⟨mid, hmid, htables, hknown⟩ := exists_midRound hkeyed hok hpast htimes hrun
  have hframe := missingStatements_frame reply.fp
    ((reply.reports col mid).map ServiceReport.hostId).reverse mid
  rw [← htables] at hframe
  have hfind (name : String × String) :
      s.tables.findService col name = mid.findService col name := by
    rw [hframe]
    rfl
  have hcomponents (id : ℕ) : s.tables.components id = mid.components id := by
    rw [hframe]
    rfl
  constructor
  · intro h
    refine ⟨fun earlier hearlier service hservice hlacks => ?_,
      fun service hmem service' hmem' hsame => ?_⟩
    · by_contra hnone
      obtain ⟨id, hid, hrow⟩ := h.missing earlier hearlier service hservice hlacks
      rw [hfind] at hid
      have hempty := (hmid.missing hid hlacks).2 hnone
      rw [← htables, hrow] at hempty
      cases hempty
    · obtain ⟨id, hid, hrow⟩ := h.reported service hmem
      obtain ⟨id', hid', hrow'⟩ := h.reported service' hmem'
      rw [hsame.findService, hid'] at hid
      cases hid
      rw [hrow, List.singleton_inj] at hrow'
      exact ⟨congrArg HistoryRow.failed hrow', congrArg HistoryRow.ok hrow'⟩
  · intro h
    refine ⟨fun earlier hearlier service hservice hlacks => ?_, fun service hmem => ?_⟩
    · obtain ⟨id, hid⟩ := hknown earlier hearlier service hservice
      have hrow := (hmid.missing hid hlacks).1 (h.hosts earlier hearlier service hservice hlacks)
      rw [← htables] at hrow
      exact ⟨id, (hfind _).trans hid, by rw [hrow, hcomponents]⟩
    · obtain ⟨id, hid, service', hmem', hsame, hrow⟩ := hmid.reported hmem
        (((reply.reports col mid).map ServiceReport.hostId).reverse.dedup.insertionSort (· ≤ ·))
      obtain ⟨hfailed, hok⟩ := h.counts service' hmem' service hmem hsame
      refine ⟨id, (hfind _).trans hid, ?_⟩
      rw [htables, missingStatements, hrow, hfailed, hok]

/-- The replies of an agent, handled at increasing times from tables whose history is past, record
after every round what they should if and only if every round is complete. -/
theorem history_recorded_iff (col : Collation) (hkeyed : t.Keyed) {replies : List Reply}
    (hok : ∀ reply ∈ replies, reply.Ok)
    (hpast : ∀ row ∈ t.history, ∀ reply ∈ replies, row.timestamp < reply.fp)
    (htimes : replies.Pairwise fun earlier later => earlier.fp < later.fp) :
    (∃ s, handleAll col t replies = .ok s) ∧
      ((∀ before reply after, replies = before ++ reply :: after →
          ∀ s, handleAll col t (before ++ [reply]) = .ok s →
            RoundRecorded col s.tables before reply) ↔
        ∀ before reply after, replies = before ++ reply :: after →
          RoundComplete col before reply) := by
  obtain ⟨final, hfinal, -⟩ := handleAll_outcome col hok t
  refine ⟨⟨final, hfinal⟩, ?_⟩
  apply forall_congr'
  intro before
  apply forall_congr'
  intro reply
  apply forall_congr'
  intro after
  apply imp_congr_right
  intro heq
  have hround : replies = (before ++ [reply]) ++ after := by
    rw [heq, List.append_assoc, List.singleton_append]
  have hokRound : ∀ r ∈ before ++ [reply], r.Ok := by
    intro r hr
    apply hok
    rw [hround]
    exact List.mem_append_left _ hr
  have hmem : reply ∈ replies := by
    rw [heq]
    exact List.mem_append_right _ List.mem_cons_self
  have hearlier : ∀ r ∈ before, r.fp < reply.fp := by
    rw [heq, List.pairwise_append] at htimes
    intro r hr
    exact htimes.2.2 r hr reply List.mem_cons_self
  have hiff {s : ReplyState} (hrun : handleAll col t (before ++ [reply]) = .ok s) :
      RoundRecorded col s.tables before reply ↔ RoundComplete col before reply :=
    round_recorded_iff hkeyed hokRound (fun row hrow => hpast row hrow reply hmem) hearlier hrun
  constructor
  · intro hrecorded
    obtain ⟨s, hs, -⟩ := handleAll_outcome col hokRound t
    exact (hiff hs).mp (hrecorded s hs)
  · intro hcomplete s hs
    exact (hiff hs).mpr hcomplete

end runs

/-! ### Replies of one host -/

/-- A reply of services of one host that are well. -/
def wellReply (fp : ℚ) (names : List String) : Reply :=
  replyOf fp (names.map fun name => (name, serviceOf "web" [] [] [socketOf "80" "ok"]))

theorem wellReply_ok (fp : ℚ) (names : List String) : (wellReply fp names).Ok := by
  apply replyOf_ok
  intro service hmem
  obtain ⟨name, -, rfl⟩ := List.mem_map.mp hmem
  exact serviceOk_serviceOf "web" (by simp) (by simp) (by simp [socketOk_socketOf])

theorem mem_wellReply {fp : ℚ} {names : List String} {service : String × Json}
    (h : service ∈ (wellReply fp names).services) :
    service.2 = serviceOf "web" [] [] [socketOf "80" "ok"] := by
  obtain ⟨name, -, rfl⟩ := List.mem_map.mp h
  rfl

theorem logsHost_congr {service service' : String × Json} (h : service.2 = service'.2) :
    logsHost service = logsHost service' := by
  rw [logsHost, logsHost, h]

/-- A round with some service of the host is complete. -/
theorem wellReply_complete (col : Collation) {fp : ℚ} {names : List String} (hnames : names ≠ [])
    {before : List Reply}
    (hbefore : ∀ earlier ∈ before, ∃ fp names, earlier = wellReply fp names) :
    RoundComplete col before (wellReply fp names) := by
  constructor
  · intro earlier hearlier service hservice _
    obtain ⟨fp', names', rfl⟩ := hbefore earlier hearlier
    obtain ⟨name, hname⟩ := List.exists_mem_of_ne_nil names hnames
    refine ⟨(name, serviceOf "web" [] [] [socketOf "80" "ok"]),
      List.mem_map_of_mem hname, ?_⟩
    rw [logsHost_congr (mem_wellReply hservice).symm]
    exact col.refl _
  · intro service hmem service' hmem' _
    rw [failedCount, failedCount, okCount, okCount, mem_wellReply hmem, mem_wellReply hmem']
    exact ⟨rfl, rfl⟩

theorem history_recorded_vanished : ∃ s,
    handleAll .binary noServices [wellReply 10 ["app", "db"], wellReply 20 ["app"]] = .ok s ∧
      RoundRecorded .binary s.tables [wellReply 10 ["app", "db"]] (wellReply 20 ["app"]) := by
  have hok : ∀ reply ∈ [wellReply 10 ["app", "db"], wellReply 20 ["app"]], reply.Ok := by
    simp [wellReply_ok]
  have htimes : [wellReply 10 ["app", "db"], wellReply 20 ["app"]].Pairwise
      fun earlier later => earlier.fp < later.fp := by
    norm_num [wellReply, replyOf]
  obtain ⟨⟨s, hs⟩, hiff⟩ := history_recorded_iff .binary (t := noServices) ⟨.nil, .nil⟩ hok
    (by simp [noServices]) htimes
  refine ⟨s, hs, hiff.mpr ?_ [wellReply 10 ["app", "db"]] _ [] rfl s hs⟩
  intro before reply after heq
  have hwell : ∀ r ∈ before ++ reply :: after, ∃ fp names, names ≠ [] ∧ r = wellReply fp names := by
    rw [← heq]
    simp only [List.forall_mem_cons]
    exact ⟨⟨10, _, by simp, rfl⟩, ⟨20, _, by simp, rfl⟩, by simp⟩
  obtain ⟨hbefore, hrest⟩ := List.forall_mem_append.mp hwell
  obtain ⟨fp, names, hnames, rfl⟩ := hrest reply List.mem_cons_self
  apply wellReply_complete .binary hnames
  intro earlier hearlier
  obtain ⟨fp', names', -, rfl⟩ := hbefore earlier hearlier
  exact ⟨fp', names', rfl⟩

/-- With all services of a host gone, nothing is recorded of them. -/
theorem history_vanished_host :
    ¬ ∀ (col : Collation) (t : ServiceTables) (replies : List Reply), t.Keyed →
      (∀ reply ∈ replies, reply.Ok) →
      (∀ row ∈ t.history, ∀ reply ∈ replies, row.timestamp < reply.fp) →
      (replies.Pairwise fun earlier later => earlier.fp < later.fp) →
      ∀ before reply after, replies = before ++ reply :: after →
        ∀ s, handleAll col t (before ++ [reply]) = .ok s →
          RoundRecorded col s.tables before reply := by
  intro h
  have hrun : (handleAll .binary noServices [wellReply 10 ["db"], wellReply 20 []]).toOption.map
      (fun s => s.tables.history) = some [⟨1, 10, 0, 0, 1⟩] := by
    decide +kernel
  obtain ⟨s, hs, hhistory⟩ := exists_ok_of_toOption_map hrun
  have hrecorded := h .binary noServices [wellReply 10 ["db"], wellReply 20 []] ⟨.nil, .nil⟩
    (by simp [wellReply_ok]) (by simp [noServices]) (by norm_num [wellReply, replyOf])
    [wellReply 10 ["db"]] (wellReply 20 []) [] rfl s hs
  obtain ⟨id, -, hrow⟩ := hrecorded.missing _ List.mem_cons_self
    ("db", serviceOf "web" [] [] [socketOf "80" "ok"]) List.mem_cons_self
    (fun reported hreported => absurd hreported List.not_mem_nil)
  have hmem : (⟨id, 20, 0, s.tables.components id, 0⟩ : HistoryRow) ∈ s.tables.history := by
    apply List.mem_of_mem_filter (p := fun row => row.servId = id ∧ row.timestamp = 20)
    change _ ∈ s.tables.historyAt id (wellReply 20 []).fp
    rw [hrow]
    exact List.mem_singleton_self _
  rw [hhistory, List.mem_singleton] at hmem
  have htime : (20 : ℚ) = 10 := congrArg HistoryRow.timestamp hmem
  norm_num at htime

end WatchedBack
