import WatchedBack.Model.Alerter
import WatchedBack.Verification.Permissions.Alerting
import WatchedBack.Verification.Permissions.Sight

/-! # Who an alert is sent to

The rows of a view of alerts name a property, and the alerter of this name gets the value. An alert
about a host goes to the grants with the flag only, and so to teams that see the host. -/

namespace WatchedBack

/-- The alerter, and whom it is told to alert. -/
def Delivery.address (d : Delivery) : String × String := (d.alerter, d.dest)

/-- Two addresses that the server takes for one. -/
def SameAddress (col : Collation) (a b : String × String) : Prop :=
  a.1 = b.1 ∧ col.same a.2 b.2 = true

/-- Every address gets one delivery, by an alerter that is there: of the values that the server
takes for one, one is alerted. -/
structure Addressed (col : Collation) (alerters : List String) (deliveries : List Delivery)
    (granted : String → String → Prop) : Prop where
  once : (deliveries.map Delivery.address).Pairwise fun a b => ¬ SameAddress col a b
  sound : ∀ alerter dest, (alerter, dest) ∈ deliveries.map Delivery.address →
    alerter ∈ alerters ∧ granted alerter dest
  complete : ∀ alerter dest, alerter ∈ alerters → granted alerter dest →
    ∃ dest', col.same dest dest' = true ∧ (alerter, dest') ∈ deliveries.map Delivery.address

/-- Where values are the same to the byte only, exactly the granted addresses are alerted. -/
theorem Addressed.mem_iff_of_binary {alerters : List String} {deliveries : List Delivery}
    {granted : String → String → Prop} (h : Addressed .binary alerters deliveries granted)
    (alerter dest : String) : (alerter, dest) ∈ deliveries.map Delivery.address ↔
      alerter ∈ alerters ∧ granted alerter dest := by
  refine ⟨h.sound alerter dest, fun ⟨hmem, hgranted⟩ => ?_⟩
  obtain ⟨dest', hsame, hdest⟩ := h.complete alerter dest hmem hgranted
  rw [show dest = dest' from of_decide_eq_true hsame]
  exact hdest

namespace Permissions

variable {col : Collation} {db : Permissions} {g : GrantRow} {s : ServiceRow} {properties : List NameRow}
  {hostId t propId : ℕ} {value : String}

/-! ### Alerts about hosts -/

/-- The role is for whole hosts. -/
def HostRole (db : Permissions) (g : GrantRow) : Prop :=
  ∃ r ∈ db.roles, r.id = g.roleId ∧ r.servTypeId = none

/-- A grant for alerts to the host, with a role for whole hosts. -/
def AlertsHost (db : Permissions) (t hostId : ℕ) : Prop :=
  ∃ kind g, g ∈ db.grants kind ∧ db.CoversHost g hostId kind ∧ g.alert = some 1 ∧ db.HostRole g ∧
    g.teamId = t

theorem mem_hostRoles {r : RoleRow} : r ∈ db.hostRoles g ↔
    r ∈ db.roles ∧ r.id = g.roleId ∧ r.servTypeId = none := by
  rw [hostRoles, List.mem_filter, decide_eq_true_eq]

theorem mem_granted : (hostId, t) ∈ db.grantedHosts ∨ (hostId, t) ∈ db.grantedDomains ↔
    db.AlertsHost t hostId := by
  simp only [grantedHosts, grantedDomains, List.mem_flatMap, List.mem_map, List.mem_filter,
    decide_eq_true_eq, Prod.mk.injEq, mem_hostRoles]
  constructor
  · rintro (⟨g, ⟨hg, hal⟩, r, hr, hid, ht⟩ | ⟨g, ⟨hg, hal⟩, h, ⟨hh, hdomain⟩, r, hr, hid, ht⟩)
    · exact ⟨.host, g, hg, hid, hal, ⟨r, hr⟩, ht⟩
    · exact ⟨.domain, g, hg, ⟨h, hh, hdomain, hid⟩, hal, ⟨r, hr⟩, ht⟩
  · rintro ⟨kind, g, hg, hcovers, hal, ⟨r, hr⟩, ht⟩
    cases kind with
    | service => exact hcovers.elim
    | app => exact hcovers.elim
    | group => exact hcovers.elim
    | host => exact Or.inl ⟨g, ⟨hg, hal⟩, r, hr, hcovers, ht⟩
    | domain =>
        obtain ⟨h, hh, hdomain, hid⟩ := hcovers
        exact Or.inr ⟨g, ⟨hg, hal⟩, h, ⟨hh, hdomain⟩, r, hr, hid, ht⟩

/-- The team, or a user in it, has the property, and the team a grant for alerts to the host. -/
def HostAlerted (db : Permissions) (hostId propId : ℕ) (value : String) : Prop :=
  ∃ t, db.AlertsHost t hostId ∧ db.TeamHas t propId value

theorem mem_grants {row : AlertServiceRow} :
    ((row ∈ db.ofTeams db.grantedHosts ∨ row ∈ db.ofUsers db.grantedHosts) ∨
      (row ∈ db.ofTeams db.grantedDomains ∨ row ∈ db.ofUsers db.grantedDomains)) ↔
    db.HostAlerted row.servId row.propId row.value := by
  simp only [mem_ofTeams_or_ofUsers, ← exists_or, ← or_and_right, mem_granted]
  rfl

/-- Nobody is alerted about a host that the team does not see. -/
theorem AlertsHost.sees (h : db.AlertsHost t hostId) :
    ∃ role, db.TeamSeesHost t hostId (some role) (some 1) := by
  obtain ⟨kind, g, hg, hcovers, hal, -, rfl⟩ := h
  exact ⟨g.roleId, Or.inl ⟨kind, g, hg, hcovers, rfl, rfl, hal⟩⟩

/-! ### Destinations -/

section dests

variable {rows : List AlertServiceRow} {P : AlertServiceRow → Prop} {id : ℕ}
  {alerter dest : String}

/-- The query over a view of alerts. -/
def destsOf (properties : List NameRow) (rows : List AlertServiceRow) (id : ℕ) :
    List (String × String) :=
  (rows.filter fun a => a.servId = id).flatMap fun a =>
    (properties.filter fun p => a.propId = p.id).map fun p => (p.name, a.value)

theorem mem_destsOf : (alerter, dest) ∈ destsOf properties rows id ↔
    ∃ p ∈ properties, p.name = alerter ∧ ⟨id, p.id, dest⟩ ∈ rows := by
  simp only [destsOf, List.mem_flatMap, List.mem_map, List.mem_filter, decide_eq_true_eq]
  constructor
  · rintro ⟨a, ⟨ha, hid⟩, p, ⟨hp, hprop⟩, heq⟩
    obtain ⟨hname, hvalue⟩ := Prod.mk.inj heq
    refine ⟨p, hp, hname, ?_⟩
    rw [← hid, ← hprop, ← hvalue]
    exact ha
  · rintro ⟨p, hp, hname, hrow⟩
    exact ⟨_, ⟨hrow, rfl⟩, p, ⟨hp, rfl⟩, by rw [hname]⟩

/-- Properties of different names, and rows that differ in the property or the value. -/
theorem pairwise_destsOf
    (hrows : rows.Pairwise fun a b => (AlertServiceRow.likeness col).same a b = false)
    (hnames : (properties.map NameRow.name).Nodup) :
    (destsOf properties rows id).Pairwise fun a b => ¬ SameAddress col a b := by
  rw [destsOf, List.pairwise_flatMap]
  constructor
  · intro a _
    rw [List.pairwise_map]
    refine ((List.pairwise_map.mp hnames).filter _).imp fun {p q} hne hsame => ?_
    exact hne hsame.1
  · refine (hrows.filter _).imp_of_mem fun {a b} ha hb hdiffer d hd e he hsame => ?_
    obtain ⟨p, hp, rfl⟩ := List.mem_map.mp hd
    obtain ⟨q, hq, rfl⟩ := List.mem_map.mp he
    obtain ⟨hp, hpa⟩ := List.mem_filter.mp hp
    obtain ⟨hq, hqb⟩ := List.mem_filter.mp hq
    -- one property of one thing, and so one row
    obtain rfl := List.inj_on_of_nodup_map hnames hp hq hsame.1
    have hserv : a.servId = b.servId :=
      (of_decide_eq_true (List.mem_filter.mp ha).2).trans
        (of_decide_eq_true (List.mem_filter.mp hb).2).symm
    have hprop : a.propId = b.propId := (of_decide_eq_true hpa).trans (of_decide_eq_true hqb).symm
    rw [AlertServiceRow.same_iff.mpr ⟨hserv, hprop, hsame.2⟩] at hdiffer
    cases hdiffer

/-- An alert is handed on for each destination whose alerter is there. -/
theorem map_address_send (alerters : List String) (dests : List (String × String))
    (level : ℕ) (title message : String) :
    (dests.flatMap fun d => send alerters ⟨level, d.1, d.2, title, message⟩).map Delivery.address =
      dests.filter fun d => d.1 ∈ alerters := by
  induction dests with
  | nil => rfl
  | cons d dests ih =>
      rw [List.flatMap_cons, List.map_append, ih, List.filter_cons, send]
      by_cases hd : d.1 ∈ alerters
      · simp [hd, Delivery.address]
      · simp [hd]

/-- Of a view that has no row twice, each property of an alerter that is there gets one delivery. -/
theorem addressed_of_lists {alerters : List String} {deliveries : List Delivery}
    (hdeliveries : deliveries.map Delivery.address =
      (destsOf properties rows id).filter fun d => d.1 ∈ alerters)
    (hrows : rows.Pairwise fun a b => (AlertServiceRow.likeness col).same a b = false)
    (hlists : AlertServiceRow.Lists col rows P) (hnames : (properties.map NameRow.name).Nodup) :
    Addressed col alerters deliveries fun alerter dest =>
      ∃ p ∈ properties, p.name = alerter ∧ P ⟨id, p.id, dest⟩ := by
  constructor
  · rw [hdeliveries]
    exact (pairwise_destsOf hrows hnames).filter _
  · intro alerter dest h
    rw [hdeliveries, List.mem_filter, decide_eq_true_eq, mem_destsOf] at h
    obtain ⟨⟨p, hp, hname, hrow⟩, halerter⟩ := h
    exact ⟨halerter, p, hp, hname, hlists.sound _ hrow⟩
  · intro alerter dest halerter ⟨p, hp, hname, hP⟩
    obtain ⟨dest', hsame, hrow⟩ :=
      (hlists.exists_value_iff id p.id dest).mpr ⟨dest, col.refl dest, hP⟩
    refine ⟨dest', hsame, ?_⟩
    rw [hdeliveries, List.mem_filter, decide_eq_true_eq, mem_destsOf]
    exact ⟨⟨p, hp, hname, hrow⟩, halerter⟩

end dests

/-! ### The deliveries -/

/-- The value is a destination of the alerter for the host. -/
def GrantedHost (db : Permissions) (properties : List NameRow) (hostId : ℕ)
    (alerter dest : String) : Prop :=
  ∃ p ∈ properties, p.name = alerter ∧ ∃ t, db.AlertsHost t hostId ∧ db.TeamHas t p.id dest

def GrantedService (db : Permissions) (properties : List NameRow) (s : ServiceRow)
    (alerter dest : String) : Prop :=
  ∃ p ∈ properties, p.name = alerter ∧ db.Reached s p.id dest

/-- The rows of `p$alert_hosts`, under the names of those of `p$alert_services`. -/
theorem exists_hostRows (col : Collation) (db : Permissions) : ∃ rows : List AlertServiceRow,
    (∀ properties hostId, db.hostDests col properties hostId = destsOf properties rows hostId) ∧
    rows.Pairwise (fun a b => (AlertServiceRow.likeness col).same a b = false) ∧
    AlertServiceRow.Lists col rows fun row => db.HostAlerted row.servId row.propId row.value := by
  have hlists := AlertServiceRow.Lists.refl col
  have hview := (((hlists (db.ofTeams db.grantedHosts)).union
    (hlists (db.ofTeams db.grantedDomains))).union (hlists (db.ofUsers db.grantedHosts))).union
    (hlists (db.ofUsers db.grantedDomains))
  refine ⟨_, fun properties hostId => ?_, AlertServiceRow.pairwise_union col _ _,
    hview.congr fun row => ?_⟩
  · rw [hostDests, alertHosts, List.filter_map, List.flatMap_map]
    rfl
  · rw [← mem_grants]
    tauto

/-- Where no two properties have one name: an event of a host is delivered once to every
destination whose alerter is there and that a team with a grant for alerts to the host or its
domain, in a role for whole hosts, has itself or by a user; and these teams see the host. -/
theorem host_event_addressed (col : Collation) (db : Permissions)
    (hnames : (properties.map NameRow.name).Nodup)
    (alerters : List String) (tables : ServiceTables) (getRessourceName : ℕ → String)
    (hostId resId : ℕ) (event : ResEvent) (current : ℚ) :
    Addressed col alerters (sendHostRessource alerters tables getRessourceName
        (db.hostDests col properties) hostId resId event current)
        (db.GrantedHost properties hostId) ∧
      ∀ t, db.AlertsHost t hostId → ∀ u, ⟨u, t⟩ ∈ db.userTeams →
        ∃ role, ⟨u, hostId, role⟩ ∈ db.usersAllHosts := by
  constructor
  · obtain ⟨rows, hdests, hrows, hlists⟩ := exists_hostRows col db
    refine addressed_of_lists ?_ hrows hlists hnames
    rw [← hdests]
    exact map_address_send alerters _ _ _ _
  · intro t ht u hut
    obtain ⟨role, hsees⟩ := ht.sees
    exact ⟨some role, mem_usersAllHosts.mpr ⟨t, some 1, hut, mem_teamsAllHosts.mpr hsees⟩⟩

/-- Where no two properties have one name, each of the alerts about a service is delivered once to
every destination whose alerter is there and that a grant reaches. -/
theorem service_alert_addressed (col : Collation) (db : Permissions)
    (hnames : (properties.map NameRow.name).Nodup)
    (hs : s ∈ db.services) (alerters : List String) (tables : ServiceTables)
    (getRessourceName : ℕ → String) :
    (∀ msg, Addressed col alerters (sendService alerters (db.serviceDests col properties) s.id msg)
      (db.GrantedService properties s)) ∧
    (∀ hostId level lines, Addressed col alerters
      (sendLog alerters tables (db.serviceDests col properties) hostId s.id level lines)
      (db.GrantedService properties s)) ∧
    ∀ resId event current, Addressed col alerters
      (sendServRessource alerters tables getRessourceName (db.serviceDests col properties) s.id resId
        event current) (db.GrantedService properties s) := by
  have hgranted : (fun alerter dest => ∃ p ∈ properties, p.name = alerter ∧
      db.Alerted s.id p.id dest) = db.GrantedService properties s := by
    funext alerter dest
    simp only [alerted_iff hs, GrantedService]
  have hdests : ∀ level title message, Addressed col alerters
      ((db.serviceDests col properties s.id).flatMap fun d =>
        send alerters ⟨level, d.1, d.2, title, message⟩) (db.GrantedService properties s) := by
    intro level title message
    rw [← hgranted]
    exact addressed_of_lists (map_address_send alerters _ _ _ _)
      (AlertServiceRow.pairwise_union col _ _) (alertServices_lists col db) hnames
  exact ⟨fun msg => hdests _ _ _, fun hostId level lines => hdests _ _ _,
    fun resId event current => hdests _ _ _⟩

/-- A team with alerts for a host, with a user who has an address too. -/
def hostTeam : Permissions :=
  { noGrants with
    hosts := [⟨1, some 1⟩]
    services := [⟨1, 1, some 1, "mysql"⟩]
    roles := [⟨1, none⟩, ⟨2, some 1⟩]
    teamProperties := [⟨6, 1, "ops"⟩]
    userTeams := [⟨1, 6⟩]
    userProperties := [⟨1, 1, "me"⟩]
    pServices := [⟨1, 6, 2, some 1⟩]
    pHosts := [⟨1, 6, 1, some 1⟩]
    pDomains := [⟨1, 6, 1, some 1⟩]
    keyed := List.nodup_singleton _ }

theorem host_event_addressed_hostTeam :
    Addressed .binary ["email"] (sendHostRessource ["email"] noServices (fun _ => "disk")
        (hostTeam.hostDests .binary [⟨1, "email"⟩]) 1 1 ⟨3, "pctfree", '<', 10⟩ 5)
      (hostTeam.GrantedHost [⟨1, "email"⟩] 1) ∧
    hostTeam.hostDests .binary [⟨1, "email"⟩] 1 = [("email", "ops"), ("email", "me")] := by
  have hnames : ([⟨1, "email"⟩] : List NameRow).map NameRow.name |>.Nodup := by decide
  exact ⟨(host_event_addressed .binary hostTeam hnames _ _ _ _ _ _ _).1, by decide⟩

theorem service_alert_addressed_hostTeam :
    Addressed .binary ["email"]
      (sendService ["email"] (hostTeam.serviceDests .binary [⟨1, "email"⟩]) 1 "down")
      (hostTeam.GrantedService [⟨1, "email"⟩] ⟨1, 1, some 1, "mysql"⟩) := by
  have hnames : ([⟨1, "email"⟩] : List NameRow).map NameRow.name |>.Nodup := by decide
  have hs : ⟨1, 1, some 1, "mysql"⟩ ∈ hostTeam.services := by decide
  exact (service_alert_addressed .binary hostTeam hnames hs _ noServices fun _ => "").1 "down"

end Permissions

end WatchedBack
