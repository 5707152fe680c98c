import WatchedBack.Verification.Replies.ServiceAlerts

/-! # A reply that is repeated

The second time, every line is stored and every row has the status that was last reported. The
components of one name share a row, so those of different statuses are news every time. -/

namespace WatchedBack

open Fallible Reports

/-! ### Services and their ids -/

section names

variable {col : Collation} {t : ServiceTables}

/-- One id is that of one host. -/
theorem findHost_inj (hkeyed : t.Keyed) {name name' : String} {id : ℕ}
    (h : t.findHost col name = some id) (h' : t.findHost col name' = some id) :
    col.same name name' = true := by
  obtain ⟨host, hhost, hid⟩ := Option.map_eq_some_iff.mp h
  obtain ⟨host', hhost', hid'⟩ := Option.map_eq_some_iff.mp h'
  obtain rfl : host = host' := List.inj_on_of_nodup_map hkeyed.hosts
    (List.mem_of_find?_eq_some hhost) (List.mem_of_find?_eq_some hhost') (hid.trans hid'.symm)
  have hname : col.same host.name name = true := by simpa using List.find?_some hhost
  have hname' : col.same host.name name' = true := by simpa using List.find?_some hhost'
  exact col.trans (col.symm hname) hname'

/-- The row of a service, and that of its host. -/
theorem findService_row {name : String × String} {id : ℕ} (h : t.findService col name = some id) :
    ∃ row ∈ t.services, row.id = id ∧ t.findHost col name.1 = some row.hostId ∧
      col.same row.name name.2 = true := by
  obtain ⟨host, hhost, hrow⟩ := Option.bind_eq_some_iff.mp h
  obtain ⟨row, hrow, hid⟩ := Option.map_eq_some_iff.mp hrow
  have hkey : row.hostId = host.id ∧ col.same row.name name.2 = true := by
    simpa using List.find?_some hrow
  refine ⟨row, List.mem_of_find?_eq_some hrow, hid, ?_, hkey.2⟩
  rw [ServiceTables.findHost, hhost, hkey.1]
  rfl

/-- One id is that of one service. -/
theorem findService_inj (hkeyed : t.Keyed) {name name' : String × String} {id : ℕ}
    (h : t.findService col name = some id) (h' : t.findService col name' = some id) :
    Rounds.SameName col name name' := by
  obtain ⟨row, hrow, hid, hhost, hname⟩ := findService_row h
  obtain ⟨row', hrow', hid', hhost', hname'⟩ := findService_row h'
  obtain rfl : row = row' := List.inj_on_of_nodup_map hkeyed.services hrow hrow' (hid.trans hid'.symm)
  exact ⟨findHost_inj hkeyed hhost hhost', col.trans (col.symm hname) hname'⟩

/-- The names of a service and its host. -/
def fullName (service : String × Json) : String × String := (logsHost service, service.1)

/-- Known services have one id exactly if their names are those of one service. -/
theorem Outcome.servId_eq_iff {t₀ : ServiceTables} {reply : Reply} {alerts : List ServiceAlert}
    (h : Outcome col t₀ (reply.reports col t) t alerts) (hkeyed : t.Keyed)
    {service service' : String × Json} (hmem : service ∈ reply.services)
    (hmem' : service' ∈ reply.services) :
    (t.report col reply.fp service).servId = (t.report col reply.fp service').servId ↔
      Rounds.SameName col (fullName service) (fullName service') := by
  have hfound := (h.found _ (List.mem_map_of_mem hmem)).2
  have hfound' := (h.found _ (List.mem_map_of_mem hmem')).2
  constructor
  · intro heq
    rw [heq] at hfound
    exact findService_inj hkeyed hfound hfound'
  · intro hsame
    change ((t.findService col (fullName service)).getD 0) =
      ((t.findService col (fullName service')).getD 0)
    rw [hsame.findService]

end names

/-! ### The reports of the repetition -/

namespace Component

/-- The component at another time. -/
def retime (fp : ℚ) : Component → Component
  | process row => process { row with timestamp := fp }
  | socket row => socket { row with timestamp := fp }

variable {col : Collation} (fp : ℚ)

theorem same_retime (x y : Component) :
    (likeness col).same x (y.retime fp) = (likeness col).same x y := by
  cases y with
  | process row => rfl
  | socket row => rfl

theorem news_retime (t : ServiceTables) (seen cs : List Component) :
    news col t seen (cs.map (retime fp)) = (news col t seen cs).map (retime fp) := by
  have hto (o : Option Component) (x : Component) :
      rings col t o (x.retime fp) = rings col t o x := by
    cases o with
    | some y => cases x with
      | process row => rfl
      | socket row => rfl
    | none => cases x with
      | process row => rfl
      | socket row => rfl
  have hof (y x : Component) : rings col t (some (y.retime fp)) x = rings col t (some y) x := by
    cases y with
    | process row => rfl
    | socket row => rfl
  have h := Likeness.alarms_map (L := likeness col) (same_retime fp) hto hof seen [] cs
  rwa [List.map_nil, List.append_nil] at h

end Component

section repetition

variable {col : Collation} {t : ServiceTables}

/-- The reports of a service at another time. -/
theorem report_retime (fp fp' : ℚ) (service : String × Json) :
    t.report col fp' service = { t.report col fp service with
      process := (t.report col fp service).process.map fun row => { row with timestamp := fp' }
      sockets := (t.report col fp service).sockets.map fun row => { row with timestamp := fp' } } := by
  simp only [ServiceTables.report, ServiceReport.read, List.map_map]
  rfl

theorem components_retime (fp fp' : ℚ) (services : List (String × Json)) :
    (services.map (t.report col fp')).flatMap ServiceReport.components =
      ((services.map (t.report col fp)).flatMap ServiceReport.components).map
        (Component.retime fp') := by
  rw [List.map_flatMap, List.flatMap_map, List.flatMap_map]
  congr 1
  funext service
  rw [report_retime fp fp']
  simp only [ServiceReport.components, List.map_append, List.map_map]
  rfl

theorem process_retime (fp fp' : ℚ) (services : List (String × Json)) :
    (services.map (t.report col fp')).flatMap ServiceReport.process =
      ((services.map (t.report col fp)).flatMap ServiceReport.process).map
        fun row => { row with timestamp := fp' } := by
  rw [List.map_flatMap, List.flatMap_map, List.flatMap_map]
  congr 1
  funext service
  rw [report_retime fp fp']

theorem sockets_retime (fp fp' : ℚ) (services : List (String × Json)) :
    (services.map (t.report col fp')).flatMap ServiceReport.sockets =
      ((services.map (t.report col fp)).flatMap ServiceReport.sockets).map
        fun row => { row with timestamp := fp' } := by
  rw [List.map_flatMap, List.flatMap_map, List.flatMap_map]
  congr 1
  funext service
  rw [report_retime fp fp']

theorem lines_retime (fp fp' : ℚ) (services : List (String × Json)) :
    (services.map (t.report col fp')).flatMap ServiceReport.lines =
      (services.map (t.report col fp)).flatMap ServiceReport.lines := by
  rw [List.flatMap_map, List.flatMap_map]
  rfl

/-- No service is announced exactly if no component is news. -/
theorem serviceCalls_eq_nil_iff (seen : List Component) (reports : List ServiceReport) :
    inTurn ServiceReport.components (fun seen report => report.serviceCalls col t seen) seen reports =
        [] ↔
      Component.news col t seen (reports.flatMap ServiceReport.components) = [] := by
  induction reports generalizing seen with
  | nil => exact iff_of_true rfl rfl
  | cons report reports ih =>
      have happend : Component.news col t seen ((report :: reports).flatMap
          ServiceReport.components) = Component.news col t seen report.components ++
            Component.news col t (seen ++ report.components)
              (reports.flatMap ServiceReport.components) := Likeness.alarms_append _ _ _ _
      have hhead : report.serviceCalls col t seen = [] ↔
          Component.news col t seen report.components = [] := by
        rw [ServiceReport.serviceCalls]
        split
        · next hann => simpa using ServiceReport.announces_iff.mp hann
        · next hann =>
          rw [ServiceReport.announces_iff, not_not] at hann
          simpa using hann
      rw [inTurn, List.append_eq_nil_iff, ih, happend, List.append_eq_nil_iff, hhead]

end repetition

/-! ### Components of one name -/

/-- The processes of one name that the reply has of a service have one status, and so have the
sockets. -/
def Reply.Uniform (col : Collation) (reply : Reply) : Prop :=
  ∀ kind ∈ ["process", "sockets"], ∀ service ∈ reply.services, ∀ service' ∈ reply.services,
    Rounds.SameName col (fullName service) (fullName service') →
      ∀ p ∈ service.2.elementsAt ["status", kind], ∀ p' ∈ service'.2.elementsAt ["status", kind],
        col.same (p.text "name") (p'.text "name") = true →
          col.same (p.text "status") (p'.text "status") = true

section uniform

variable {col : Collation} {t t₀ : ServiceTables} {reply : Reply} {alerts : List ServiceAlert}

theorem mem_components {fp : ℚ} {service : String × Json} {c : Component} :
    c ∈ (t.report col fp service).components ↔
      (∃ p ∈ service.2.elementsAt ["status", "process"],
        .process (p.processRow (t.report col fp service).servId fp) = c) ∨
      ∃ p ∈ service.2.elementsAt ["status", "sockets"],
        .socket (p.socketRow (t.report col fp service).servId fp) = c := by
  simp only [ServiceReport.components, List.mem_append, List.mem_map]
  simp only [ServiceTables.report, ServiceReport.read, List.mem_map, exists_exists_and_eq_and]

theorem likeness_iff {x y : Component} : (Component.likeness col).same x y = true ↔
    y.isProcess = x.isProcess ∧ y.servId = x.servId ∧ col.same y.name x.name = true :=
  decide_eq_true_iff

theorem Outcome.uniform_iff (h : Outcome col t₀ (reply.reports col t) t alerts)
    (hkeyed : t.Keyed) :
    (∀ x ∈ (reply.reports col t).flatMap ServiceReport.components,
      ∀ y ∈ (reply.reports col t).flatMap ServiceReport.components,
        (Component.likeness col).same x y = true →
          (Component.statusLikeness col).same x y = true) ↔ reply.Uniform col := by
  have hmem {c : Component} : c ∈ (reply.reports col t).flatMap ServiceReport.components ↔
      ∃ service ∈ reply.services, c ∈ (t.report col reply.fp service).components := by
    rw [Reply.reports, List.flatMap_map, List.mem_flatMap]
  constructor
  · intro hall kind hkind service hservice service' hservice' hname p hp p' hp' hsame
    have hid := (h.servId_eq_iff hkeyed hservice hservice').mpr hname
    simp only [List.mem_cons, List.not_mem_nil, or_false] at hkind
    rcases hkind with rfl | rfl
    · have hx := hmem.mpr ⟨service, hservice, mem_components.mpr (Or.inl ⟨p, hp, rfl⟩)⟩
      have hy := hmem.mpr ⟨service', hservice', mem_components.mpr (Or.inl ⟨p', hp', rfl⟩)⟩
      exact hall _ hx _ hy (likeness_iff.mpr ⟨rfl, hid.symm, col.symm hsame⟩)
    · have hx := hmem.mpr ⟨service, hservice, mem_components.mpr (Or.inr ⟨p, hp, rfl⟩)⟩
      have hy := hmem.mpr ⟨service', hservice', mem_components.mpr (Or.inr ⟨p', hp', rfl⟩)⟩
      exact hall _ hx _ hy (likeness_iff.mpr ⟨rfl, hid.symm, col.symm hsame⟩)
  · intro huniform x hx y hy hxy
    obtain ⟨hkind, hid, hname⟩ := likeness_iff.mp hxy
    obtain ⟨service, hservice, hx⟩ := hmem.mp hx
    obtain ⟨service', hservice', hy⟩ := hmem.mp hy
    have hserv (hx : x.servId = (t.report col reply.fp service).servId)
        (hy : y.servId = (t.report col reply.fp service').servId) :
        Rounds.SameName col (fullName service) (fullName service') := by
      apply (h.servId_eq_iff hkeyed hservice hservice').mp
      rw [← hx, ← hy, hid]
    rcases mem_components.mp hx with ⟨p, hp, rfl⟩ | ⟨p, hp, rfl⟩
    · rcases mem_components.mp hy with ⟨p', hp', rfl⟩ | ⟨p', hp', rfl⟩
      · exact huniform "process" (by simp) service hservice service' hservice' (hserv rfl rfl) p hp
          p' hp' (col.symm hname)
      · cases hkind
    · rcases mem_components.mp hy with ⟨p', hp', rfl⟩ | ⟨p', hp', rfl⟩
      · cases hkind
      · exact huniform "sockets" (by simp) service hservice service' hservice' (hserv rfl rfl) p hp
          p' hp' (col.symm hname)

end uniform

/-! ### The repetition -/

theorem alerts_eq_nil_iff {alerts : List ServiceAlert} : alerts = [] ↔
    alerts.filterMap ServiceAlert.logCall = [] ∧ alerts.filterMap ServiceAlert.serviceCall = [] := by
  constructor
  · rintro rfl
    exact ⟨rfl, rfl⟩
  · rintro ⟨hlog, hservice⟩
    cases alerts with
    | nil => rfl
    | cons alert alerts =>
        cases alert with
        | log hostId servId level lines => cases hlog
        | service hostId servId msg => cases hservice

/-- A row of `s$process` without its time. -/
def ProcessRow.untimed (row : ProcessRow) : ProcessRow := { row with timestamp := 0 }

def SocketRow.untimed (row : SocketRow) : SocketRow := { row with timestamp := 0 }

/-- Whatever the tables hold: a reply that is handled a second time, at any time, raises no alert
and changes no log entry, process or socket but for the timestamps if and only if the components
of one kind and name that it has of a service have one status. -/
theorem repeated_reply_silent_iff (col : Collation) {s : ReplyState} (hkeyed : s.tables.Keyed)
    {reply reply' : Reply} (hok : reply.Ok) (hok' : reply'.Ok) (hsame : reply'.data = reply.data) :
    ∃ m m' alerts, s.handle col reply = .ok m ∧ m.handle col reply' = .ok m' ∧
      m'.alerts = m.alerts ++ alerts ∧
      ((alerts = [] ∧ m'.tables.logEvents = m.tables.logEvents ∧
          m'.tables.process.map ProcessRow.untimed = m.tables.process.map ProcessRow.untimed ∧
          m'.tables.sockets.map SocketRow.untimed = m.tables.sockets.map SocketRow.untimed) ↔
        reply.Uniform col) := by
  obtain ⟨first, m, hm, -, hreports, hfirst⟩ := handle_outcome col hok s
  obtain ⟨alerts, m', hm', halerts, -, hagain⟩ := handle_outcome col hok' m
  refine ⟨m, m', alerts, hm, hm', halerts, ?_⟩
  have hservices : reply'.services = reply.services := by
    rw [Reply.services, Reply.services, hsame]
  -- both times the same services are found
  have hids : reply.services.map (m'.tables.report col reply.fp) = reply.reports col m.tables :=
    hreports m'.tables hagain.known
  have hrewrite {α : Type} {f : ServiceReport → List α} {xs : List α}
      (h : (reply.services.map (m'.tables.report col reply'.fp)).flatMap f = xs) :
      (reply'.reports col m'.tables).flatMap f = xs := by
    rw [Reply.reports, hservices]
    exact h
  have hlines := hrewrite (lines_retime reply.fp reply'.fp reply.services)
  have hprocess := hrewrite (process_retime reply.fp reply'.fp reply.services)
  have hsockets := hrewrite (sockets_retime reply.fp reply'.fp reply.services)
  have hcomponents := hrewrite (components_retime reply.fp reply'.fp reply.services)
  rw [hids] at hlines hprocess hsockets hcomponents
  -- no line is new
  have hold : (LogLine.likeness col).firsts m.tables.lines
      ((reply'.reports col m'.tables).flatMap ServiceReport.lines) = [] := by
    rw [hlines]
    apply Likeness.firsts_eq_nil
    intro line hline
    rw [hfirst.lines, Likeness.seenIn_append_firsts, Likeness.seenIn_append,
      Likeness.seenIn_of_mem hline, Bool.or_true]
  have hlogEvents : m'.tables.logEvents = m.tables.logEvents := by
    obtain ⟨added, hadded, hnone⟩ := hagain.logEvents
    rw [hold, List.map_eq_nil_iff] at hnone
    rw [hadded, hnone, List.append_nil]
  -- every row is overwritten with what it has
  have hprocessRows : m'.tables.process.map ProcessRow.untimed =
      m.tables.process.map ProcessRow.untimed := by
    rw [hagain.process, hprocess, hfirst.process]
    apply KeyedRows.foldl_put_again (S := processStore col) ProcessRow.untimed
    · intro row row'
      rfl
    · intro row row'
      rfl
  have hsocketRows : m'.tables.sockets.map SocketRow.untimed =
      m.tables.sockets.map SocketRow.untimed := by
    rw [hagain.sockets, hsockets, hfirst.sockets]
    apply KeyedRows.foldl_put_again (S := socketStore col) SocketRow.untimed
    · intro row row'
      rfl
    · intro row row'
      rfl
  have hnews : alerts.filterMap ServiceAlert.serviceCall = [] ↔ reply.Uniform col := by
    rw [hagain.serviceCalls, serviceCalls_eq_nil_iff, hcomponents, Component.news_retime,
      List.map_eq_nil_iff, hfirst.news_later, ← hfirst.uniform_iff (hfirst.keyed hkeyed),
      List.append_nil]
    apply Likeness.alarms_again_eq_nil_iff (Component.statusLikeness col) Component.failed _
      (fun _ _ => rfl) []
    intro x y hx hy
    have hstatus {c : Component} (hc : c.failed = false) : c.status = "ok" := by
      simpa [Component.failed] using hc
    change col.same x.status y.status = true
    rw [hstatus hx, hstatus hy]
    exact col.refl "ok"
  rw [alerts_eq_nil_iff, ← hnews]
  exact ⟨fun h => h.1.2, fun h => ⟨⟨hagain.silent hold, h⟩, hlogEvents, hprocessRows, hsocketRows⟩⟩

theorem repeated_reply_silent_socket : ∃ m m' alerts,
    (⟨noServices, []⟩ : ReplyState).handle .binary (socketReply 10 [socketOf "5432" "closed"]) =
        .ok m ∧
      m.handle .binary (socketReply 20 [socketOf "5432" "closed"]) = .ok m' ∧
      m'.alerts = m.alerts ++ alerts ∧ alerts = [] := by
  have hok (fp : ℚ) : (socketReply fp [socketOf "5432" "closed"]).Ok :=
    socketReply_ok fp (by simp [socketOk_socketOf])
  have huniform : (socketReply 10 [socketOf "5432" "closed"]).Uniform .binary := by
    intro kind hkind service hservice service' hservice' _ p hp p' hp' _
    rw [List.mem_singleton.mp hservice] at hp
    rw [List.mem_singleton.mp hservice'] at hp'
    have hp : p ∈ (serviceOf "web" [] [] [socketOf "5432" "closed"]).elementsAt ["status", kind] := hp
    simp only [List.mem_cons, List.not_mem_nil, or_false] at hkind
    rcases hkind with rfl | rfl
    · exact absurd hp List.not_mem_nil
    · rw [List.mem_singleton.mp hp, List.mem_singleton.mp hp']
      exact Collation.binary.refl _
  obtain ⟨m, m', alerts, hm, hm', halerts, hiff⟩ := repeated_reply_silent_iff .binary
    (s := ⟨noServices, []⟩) ⟨.nil, .nil⟩ (hok 10) (hok 20) rfl
  exact ⟨m, m', alerts, hm, hm', halerts, (hiff.mpr huniform).1⟩

/-- A service with two sockets of one name, of which one is closed. -/
def twoSockets (fp : ℚ) : Reply := socketReply fp [socketOf "80" "ok", socketOf "80" "closed"]

theorem repeated_reply_alerts :
    ¬ ∀ (col : Collation) (s : ReplyState) (reply reply' : Reply), s.tables.Keyed → reply.Ok →
      reply'.Ok → reply'.data = reply.data → ∀ m m' alerts, s.handle col reply = .ok m →
        m.handle col reply' = .ok m' → m'.alerts = m.alerts ++ alerts → alerts = [] := by
  intro h
  have hok (fp : ℚ) : (twoSockets fp).Ok := socketReply_ok fp (by simp [socketOk_socketOf])
  have hfirst : (((⟨noServices, []⟩ : ReplyState).handle .binary (twoSockets 10)).toOption.map
      ReplyState.alerts) = some [.service 1 1 "Service db on web have 1 failed componant"] := by
    decide +kernel
  have hboth : (((⟨noServices, []⟩ : ReplyState).handle .binary (twoSockets 10) >>= fun s =>
      s.handle .binary (twoSockets 20)).toOption.map ReplyState.alerts) =
        some [.service 1 1 "Service db on web have 1 failed componant",
          .service 1 1 "Service db on web have 1 failed componant"] := by
    decide +kernel
  obtain ⟨m, hm, halerts⟩ := exists_ok_of_toOption_map hfirst
  rw [hm, ok_bind] at hboth
  obtain ⟨m', hm', halerts'⟩ := exists_ok_of_toOption_map hboth
  have hnone := h .binary ⟨noServices, []⟩ (twoSockets 10) (twoSockets 20) ⟨.nil, .nil⟩ (hok 10)
    (hok 20) rfl m m' [.service 1 1 "Service db on web have 1 failed componant"] hm hm'
    (by rw [halerts', halerts]; rfl)
  cases hnone

end WatchedBack
