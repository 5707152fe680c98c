import WatchedBack.Verification.Permissions.Views

/-! # Who sees what

A user sees what the grants of one of the teams cover, and everything in a team of
administrators. A grant to hosts shows their services of the type of its role, and a grant to
services shows their hosts. -/

namespace WatchedBack

/-- The grants that name hosts. -/
def GrantKind.ofHosts : GrantKind → Bool
  | service | app | group => false
  | host | domain => true

/-- What a grant has in a view: its team, its role and its flag. -/
structure GrantRow.Gives (g : GrantRow) (t : ℕ) (role : Option ℕ) (alert : Flag) : Prop where
  team : g.teamId = t
  role : some g.roleId = role
  alert : g.alert = alert

namespace Permissions

variable {db : Permissions} {g : GrantRow} {s : ServiceRow} {kind : GrantKind} {u t r hostId : ℕ}
  {role : Option ℕ} {alert : Flag}

def IsAdmin (db : Permissions) (t : ℕ) : Prop :=
  ∃ row ∈ db.teams, row.id = t ∧ row.superadmin = some 1

/-- The role is for all services, or for those of this type. -/
def RoleOpen (db : Permissions) (g : GrantRow) (s : ServiceRow) : Prop :=
  ∃ r ∈ db.roles, r.id = g.roleId ∧ (r.servTypeId = none ∨ sqlEq r.servTypeId s.typeId = true)

/-- The host is the one of the grant, or is of its domain. -/
def CoversHost (db : Permissions) (g : GrantRow) (hostId : ℕ) : GrantKind → Prop
  | .host => g.id = hostId
  | .domain => ∃ h ∈ db.hosts, h.domainId = some g.id ∧ h.id = hostId
  | .service | .app | .group => False

/-- A grant for the service, or for its host with a role that is open to it. -/
structure Shows (db : Permissions) (kind : GrantKind) (g : GrantRow) (s : ServiceRow) : Prop where
  grant : g ∈ db.grants kind
  covers : db.Covers g s kind
  role : kind.ofHosts = true → db.RoleOpen g s

theorem coversHost_iff : db.CoversHost g s.hostId kind ↔
    kind.ofHosts = true ∧ db.Covers g s kind := by
  cases kind with
  | service => simp [CoversHost, GrantKind.ofHosts]
  | app => simp [CoversHost, GrantKind.ofHosts]
  | group => simp [CoversHost, GrantKind.ofHosts]
  | host => simp [CoversHost, GrantKind.ofHosts, Covers, eq_comm]
  | domain => simp [CoversHost, GrantKind.ofHosts, Covers, eq_comm]

/-! ### Direct grants -/

theorem mem_direct_services : ⟨s.id, t, r, alert⟩ ∈ db.servicesDirectTeams ↔
    ∃ kind g, kind.ofHosts = false ∧ db.Shows kind g s ∧ g.Gives t (some r) alert := by
  simp only [servicesDirectTeams, mem_union, List.mem_flatMap, List.mem_map, List.mem_filter,
    decide_eq_true_eq, GrantRow.mk.injEq]
  have hrole {kind : GrantKind} {g : GrantRow} (hkind : kind.ofHosts = false) :
      kind.ofHosts = true → db.RoleOpen g s := by
    rw [hkind]
    intro h
    cases h
  constructor
  · rintro ((hg | ⟨g, hg, sa, ⟨hsa, happ⟩, hid, ht, hr, hal⟩) |
      ⟨g, hg, a, ⟨ha, hgroup⟩, sa, ⟨hsa, happ⟩, hid, ht, hr, hal⟩)
    · exact ⟨.service, _, rfl, ⟨hg, rfl, hrole rfl⟩, rfl, rfl, rfl⟩
    · refine ⟨.app, g, rfl, ⟨hg, ?_, hrole rfl⟩, ht, congrArg some hr, hal⟩
      change ⟨g.id, s.id⟩ ∈ db.appServices
      rw [← happ, ← hid]
      exact hsa
    · refine ⟨.group, g, rfl, ⟨hg, ⟨a, ha, hgroup, ?_⟩, hrole rfl⟩, ht, congrArg some hr, hal⟩
      rw [← happ, ← hid]
      exact hsa
  · rintro ⟨kind, g, hkind, hshows, rfl, hr, rfl⟩
    obtain rfl := Option.some.inj hr
    cases kind with
    | service =>
        left
        left
        rw [← show g.id = s.id from hshows.covers]
        exact hshows.grant
    | app =>
        exact Or.inl (Or.inr ⟨g, hshows.grant, ⟨g.id, s.id⟩, ⟨hshows.covers, rfl⟩, rfl, rfl, rfl, rfl⟩)
    | group =>
        obtain ⟨a, ha, hgroup, hsa⟩ := hshows.covers
        exact Or.inr ⟨g, hshows.grant, a, ⟨ha, hgroup⟩, ⟨a.id, s.id⟩, ⟨hsa, rfl⟩, rfl, rfl, rfl, rfl⟩
    | host => cases hkind
    | domain => cases hkind

theorem mem_direct_hosts : ⟨hostId, t, r, alert⟩ ∈ db.hostsDirectTeams ↔
    ∃ kind g, g ∈ db.grants kind ∧ db.CoversHost g hostId kind ∧ g.Gives t (some r) alert := by
  rw [mem_hostsDirectTeams]
  constructor
  · rintro (hg | ⟨g, hg, h, hh, hdomain, heq⟩)
    · exact ⟨.host, _, hg, rfl, rfl, rfl, rfl⟩
    · obtain ⟨rfl, rfl, rfl, rfl⟩ := GrantRow.mk.inj heq
      exact ⟨.domain, g, hg, ⟨h, hh, hdomain, rfl⟩, rfl, rfl, rfl⟩
  · rintro ⟨kind, g, hg, hcovers, rfl, hr, rfl⟩
    obtain rfl := Option.some.inj hr
    cases kind with
    | service => exact hcovers.elim
    | app => exact hcovers.elim
    | group => exact hcovers.elim
    | host =>
        left
        rw [← show g.id = hostId from hcovers]
        exact hg
    | domain =>
        obtain ⟨h, hh, hdomain, rfl⟩ := hcovers
        exact Or.inr ⟨g, hg, h, hh, hdomain, rfl⟩

/-! ### Teams -/

/-- The team may see the service, with the role and the flag of a grant or as administrators. -/
def TeamSees (db : Permissions) (t : ℕ) (s : ServiceRow) (role : Option ℕ) (alert : Flag) : Prop :=
  (∃ kind g, db.Shows kind g s ∧ g.Gives t role alert) ∨
    db.IsAdmin t ∧ role = none ∧ alert = none

/-- The team may see the host, by a grant to it or to one of its services, or as administrators. -/
def TeamSeesHost (db : Permissions) (t hostId : ℕ) (role : Option ℕ) (alert : Flag) : Prop :=
  (∃ kind g, g ∈ db.grants kind ∧ db.CoversHost g hostId kind ∧ g.Gives t role alert) ∨
    (∃ s ∈ db.services, s.hostId = hostId ∧ ∃ kind g, kind.ofHosts = false ∧ db.Shows kind g s ∧
      g.Gives t role alert) ∨
    db.IsAdmin t ∧ hostId ∈ db.hosts.map HostRow.id ∧ role = none ∧ alert = none

theorem mem_admin_services (hs : s ∈ db.services) : ⟨t, s.id, role, alert⟩ ∈
    ((db.teams.filter fun t => t.superadmin = some 1).flatMap fun t =>
      db.services.map fun s => (⟨t.id, s.id, none, none⟩ : TeamServiceRow)) ↔
    db.IsAdmin t ∧ role = none ∧ alert = none := by
  simp only [List.mem_flatMap, List.mem_map, List.mem_filter, decide_eq_true_eq,
    TeamServiceRow.mk.injEq]
  constructor
  · rintro ⟨row, ⟨hrow, hadmin⟩, _, -, ht, -, hr, hal⟩
    exact ⟨⟨row, hrow, ht, hadmin⟩, hr.symm, hal.symm⟩
  · rintro ⟨⟨row, hrow, ht, hadmin⟩, rfl, rfl⟩
    exact ⟨row, ⟨hrow, hadmin⟩, s, hs, ht, rfl, rfl, rfl⟩

theorem mem_teamsAllServices (hs : s ∈ db.services) :
    ⟨t, s.id, role, alert⟩ ∈ db.teamsAllServices ↔ db.TeamSees t s role alert := by
  rw [teamsAllServices, mem_union, mem_union, mem_admin_services hs, TeamSees]
  apply or_congr_left
  simp only [List.mem_flatMap, List.mem_map, List.mem_filter, decide_eq_true_eq,
    TeamServiceRow.mk.injEq]
  constructor
  · rintro (⟨row, hrow, rfl, hid, rfl, rfl⟩ |
      ⟨row, hrow, s', ⟨hs', hhost⟩, r, ⟨hr, hrole⟩, rfl, hid, rfl, rfl⟩)
    · have hrow : ⟨s.id, row.teamId, row.roleId, row.alert⟩ ∈ db.servicesDirectTeams := by
        rw [← hid]
        exact hrow
      obtain ⟨kind, g, -, hshows, hgives⟩ := mem_direct_services.mp hrow
      exact ⟨kind, g, hshows, hgives⟩
    · obtain rfl := service_eq_of_id hs' hs hid
      have hrow : ⟨s'.hostId, row.teamId, row.roleId, row.alert⟩ ∈ db.hostsDirectTeams := by
        rw [hhost]
        exact hrow
      obtain ⟨kind, g, hg, hcovers, hgives⟩ := mem_direct_hosts.mp hrow
      refine ⟨kind, g, ⟨hg, (coversHost_iff.mp hcovers).2, fun _ => ⟨r, hr, ?_⟩⟩, hgives⟩
      rw [hrole.1, Option.some.inj hgives.role]
      exact ⟨rfl, hrole.2⟩
  · rintro ⟨kind, g, hshows, rfl, rfl, rfl⟩
    cases hkind : kind.ofHosts with
    | false =>
        exact Or.inl ⟨_, mem_direct_services.mpr ⟨kind, g, hkind, hshows, rfl, rfl, rfl⟩, rfl, rfl,
          rfl, rfl⟩
    | true =>
        have hcovers := coversHost_iff.mpr ⟨hkind, hshows.covers⟩
        obtain ⟨r, hr, hrole⟩ := hshows.role hkind
        exact Or.inr ⟨_, mem_direct_hosts.mpr ⟨kind, g, hshows.grant, hcovers, rfl, rfl, rfl⟩, s,
          ⟨hs, rfl⟩, r, ⟨hr, hrole⟩, rfl, rfl, rfl, rfl⟩

theorem mem_teamsAllHosts :
    ⟨t, hostId, role, alert⟩ ∈ db.teamsAllHosts ↔ db.TeamSeesHost t hostId role alert := by
  rw [teamsAllHosts, mem_union, mem_union, TeamSeesHost, or_assoc]
  simp only [List.mem_flatMap, List.mem_map, List.mem_filter, decide_eq_true_eq,
    TeamHostRow.mk.injEq]
  refine or_congr ?_ (or_congr ?_ ?_)
  · constructor
    · rintro ⟨row, hrow, rfl, rfl, rfl, rfl⟩
      exact mem_direct_hosts.mp hrow
    · rintro ⟨kind, g, hg, hcovers, rfl, rfl, rfl⟩
      exact ⟨_, mem_direct_hosts.mpr ⟨kind, g, hg, hcovers, rfl, rfl, rfl⟩, rfl, rfl, rfl, rfl⟩
  · constructor
    · rintro ⟨row, hrow, s, ⟨hs, hid⟩, rfl, rfl, rfl, rfl⟩
      have hrow : ⟨s.id, row.teamId, row.roleId, row.alert⟩ ∈ db.servicesDirectTeams := by
        rw [hid]
        exact hrow
      exact ⟨s, hs, rfl, mem_direct_services.mp hrow⟩
    · rintro ⟨s, hs, rfl, kind, g, hkind, hshows, rfl, rfl, rfl⟩
      exact ⟨_, mem_direct_services.mpr ⟨kind, g, hkind, hshows, rfl, rfl, rfl⟩, s, ⟨hs, rfl⟩, rfl,
        rfl, rfl, rfl⟩
  · constructor
    · rintro ⟨row, ⟨hrow, hadmin⟩, h, hh, ht, hid, hr, hal⟩
      exact ⟨⟨row, hrow, ht, hadmin⟩, ⟨h, hh, hid⟩, hr.symm, hal.symm⟩
    · rintro ⟨⟨row, hrow, ht, hadmin⟩, ⟨h, hh, hid⟩, rfl, rfl⟩
      exact ⟨row, ⟨hrow, hadmin⟩, h, hh, ht, hid, rfl, rfl⟩

/-- Who sees a service sees its host, in the same role. -/
theorem TeamSees.host (h : db.TeamSees t s role alert) (hs : s ∈ db.services)
    (hhost : s.hostId ∈ db.hosts.map HostRow.id) : db.TeamSeesHost t s.hostId role alert := by
  rcases h with ⟨kind, g, hshows, hgives⟩ | ⟨hadmin, hnone⟩
  · cases hkind : kind.ofHosts with
    | false => exact Or.inr (Or.inl ⟨s, hs, rfl, kind, g, hkind, hshows, hgives⟩)
    | true =>
        exact Or.inl ⟨kind, g, hshows.grant, coversHost_iff.mpr ⟨hkind, hshows.covers⟩, hgives⟩
  · exact Or.inr (Or.inr ⟨hadmin, hhost, hnone⟩)

/-! ### Users -/

theorem mem_usersAllServices {id : ℕ} : ⟨u, id, role⟩ ∈ db.usersAllServices ↔
    ∃ t alert, ⟨u, t⟩ ∈ db.userTeams ∧ ⟨t, id, role, alert⟩ ∈ db.teamsAllServices := by
  simp only [usersAllServices, List.mem_flatMap, List.mem_map, List.mem_filter, decide_eq_true_eq,
    UserRow.mk.injEq]
  constructor
  · rintro ⟨ts, hts, ut, ⟨hut, ht⟩, rfl, rfl, rfl⟩
    refine ⟨ts.teamId, ts.alert, ?_, hts⟩
    rw [← ht]
    exact hut
  · rintro ⟨t, alert, hut, hts⟩
    exact ⟨_, hts, ⟨u, t⟩, ⟨hut, rfl⟩, rfl, rfl, rfl⟩

theorem mem_usersAllHosts : ⟨u, hostId, role⟩ ∈ db.usersAllHosts ↔
    ∃ t alert, ⟨u, t⟩ ∈ db.userTeams ∧ ⟨t, hostId, role, alert⟩ ∈ db.teamsAllHosts := by
  simp only [usersAllHosts, List.mem_flatMap, List.mem_map, List.mem_filter, decide_eq_true_eq,
    UserRow.mk.injEq]
  constructor
  · rintro ⟨th, hth, ut, ⟨hut, ht⟩, rfl, rfl, rfl⟩
    refine ⟨th.teamId, th.alert, ?_, hth⟩
    rw [← ht]
    exact hut
  · rintro ⟨t, alert, hut, hth⟩
    exact ⟨_, hth, ⟨u, t⟩, ⟨hut, rfl⟩, rfl, rfl, rfl⟩

theorem mem_usersAllDomains {domainId : Option ℕ} : ⟨u, domainId, role⟩ ∈ db.usersAllDomains ↔
    ∃ h ∈ db.hosts, h.domainId = domainId ∧ ⟨u, h.id, role⟩ ∈ db.usersAllHosts := by
  simp only [usersAllDomains, List.mem_dedup, List.mem_flatMap, List.mem_map, List.mem_filter,
    decide_eq_true_eq, UserRow.mk.injEq, usersAllHosts]
  constructor
  · rintro ⟨th, hth, ut, hut, h, ⟨hh, hid⟩, hu, hdomain, hr⟩
    exact ⟨h, hh, hdomain, th, hth, ut, hut, hu, hid, hr⟩
  · rintro ⟨h, hh, hdomain, th, hth, ut, hut, hu, hid, hr⟩
    exact ⟨th, hth, ut, hut, h, ⟨hh, hid⟩, hu, hdomain, hr⟩

theorem mem_usersAllApps {appId : ℕ} : ⟨u, appId, role⟩ ∈ db.usersAllApps ↔
    ∃ a ∈ db.appServices, a.appId = appId ∧ ⟨u, a.servId, role⟩ ∈ db.usersAllServices := by
  simp only [usersAllApps, List.mem_dedup, List.mem_flatMap, List.mem_map, List.mem_filter,
    decide_eq_true_eq, UserRow.mk.injEq, usersAllServices]
  constructor
  · rintro ⟨ts, hts, ut, hut, a, ⟨ha, hserv⟩, hu, happ, hr⟩
    exact ⟨a, ha, happ, ts, hts, ut, hut, hu, hserv, hr⟩
  · rintro ⟨a, ha, happ, ts, hts, ut, hut, hu, hserv, hr⟩
    exact ⟨ts, hts, ut, hut, a, ⟨ha, hserv⟩, hu, happ, hr⟩

theorem mem_usersAllGroups {groupId : Option ℕ} : ⟨u, groupId, role⟩ ∈ db.usersAllGroups ↔
    ∃ a ∈ db.apps, a.groupId = groupId ∧ ⟨u, a.id, role⟩ ∈ db.usersAllApps := by
  simp only [usersAllGroups, List.mem_dedup, List.mem_flatMap, List.mem_map, List.mem_filter,
    decide_eq_true_eq, UserRow.mk.injEq, usersAllApps]
  constructor
  · rintro ⟨ts, hts, ut, hut, a, ha, aa, ⟨haa, happ⟩, hu, hgroup, hr⟩
    exact ⟨aa, haa, hgroup, ts, hts, ut, hut, a, ha, hu, happ, hr⟩
  · rintro ⟨aa, haa, hgroup, ts, hts, ut, hut, a, ha, hu, happ, hr⟩
    exact ⟨ts, hts, ut, hut, a, ha, aa, ⟨haa, happ⟩, hu, hgroup, hr⟩

/-- The views of what users see. -/
structure Sight (db : Permissions) : Prop where
  services : ∀ u, ∀ s ∈ db.services, ∀ role, ⟨u, s.id, role⟩ ∈ db.usersAllServices ↔
    ∃ t alert, ⟨u, t⟩ ∈ db.userTeams ∧ db.TeamSees t s role alert
  hosts : ∀ u hostId role, ⟨u, hostId, role⟩ ∈ db.usersAllHosts ↔
    ∃ t alert, ⟨u, t⟩ ∈ db.userTeams ∧ db.TeamSeesHost t hostId role alert
  hostOf : ∀ u, ∀ s ∈ db.services, ∀ role, ⟨u, s.id, role⟩ ∈ db.usersAllServices →
    ⟨u, s.hostId, role⟩ ∈ db.usersAllHosts
  domains : ∀ u domainId role, ⟨u, domainId, role⟩ ∈ db.usersAllDomains ↔
    ∃ h ∈ db.hosts, h.domainId = domainId ∧ ⟨u, h.id, role⟩ ∈ db.usersAllHosts
  apps : ∀ u appId role, ⟨u, appId, role⟩ ∈ db.usersAllApps ↔
    ∃ a ∈ db.appServices, a.appId = appId ∧ ⟨u, a.servId, role⟩ ∈ db.usersAllServices
  groups : ∀ u groupId role, ⟨u, groupId, role⟩ ∈ db.usersAllGroups ↔
    ∃ a ∈ db.apps, a.groupId = groupId ∧ ⟨u, a.id, role⟩ ∈ db.usersAllApps

/-- Where every service is on a host of `h$hosts`: users see the services and hosts of the grants
to their teams, the host of each of these services, and the domains, apps and groups of what they
see, always in the role of the grant. -/
theorem users_see_granted (db : Permissions)
    (hhosts : ∀ s ∈ db.services, s.hostId ∈ db.hosts.map HostRow.id) : db.Sight where
  services u s hs role := by
    simp only [mem_usersAllServices, mem_teamsAllServices hs]
  hosts u hostId role := by
    simp only [mem_usersAllHosts, mem_teamsAllHosts]
  hostOf u s hs role h := by
    obtain ⟨t, alert, hut, hts⟩ := mem_usersAllServices.mp h
    have hsees := (mem_teamsAllServices hs).mp hts
    exact mem_usersAllHosts.mpr
      ⟨t, alert, hut, mem_teamsAllHosts.mpr (hsees.host hs (hhosts s hs))⟩
  domains u domainId role := mem_usersAllDomains
  apps u appId role := mem_usersAllApps
  groups u groupId role := mem_usersAllGroups

/-- A user in the team of database administrators of a domain, with an app on a web server. -/
def dbaUser : Permissions where
  hosts := [⟨1, some 1⟩]
  services := [⟨1, 1, some 1, "mysql"⟩, ⟨2, 1, some 2, "apache"⟩, ⟨3, 1, some 3, "ssh"⟩]
  apps := [⟨1, none⟩]
  appServices := [⟨1, 2⟩]
  roles := [⟨2, some 1⟩]
  teams := [⟨6, none⟩]
  teamProperties := []
  userTeams := [⟨1, 6⟩]
  userProperties := []
  pServices := []
  pApps := [⟨1, 6, 2, none⟩]
  pGroups := []
  pHosts := []
  pDomains := [⟨1, 6, 2, none⟩]
  keyed := by decide

theorem users_see_granted_dbaUser : dbaUser.Sight ∧
    dbaUser.usersAllServices.map UserRow.id = [2, 1] := by
  have hhosts : ∀ s ∈ dbaUser.services, s.hostId ∈ dbaUser.hosts.map HostRow.id := by decide
  exact ⟨users_see_granted dbaUser hhosts, by decide⟩

end Permissions

end WatchedBack
