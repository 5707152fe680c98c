import WatchedBack.Verification.Permissions.Views

/-! # Who is alerted for a service

The branches of `p$alert_services` over the grants to hosts and domains ask neither for the
flag of the grant nor for the host of the service, and no branch is over the grants to groups. -/

namespace WatchedBack

namespace Permissions

variable {col : Collation} {db : Permissions} {s : ServiceRow} {propId : ℕ} {value : String}

/-! ### Only granted alerts -/

/-- A team that has the property, itself or through a user, may have alerts for the service. -/
def Granted (db : Permissions) (servId propId : ℕ) (value : String) : Prop :=
  ∃ t, db.TeamHas t propId value ∧
    ∃ row ∈ db.teamsAllServices, row.teamId = t ∧ row.servId = servId ∧ row.alert = some 1

/-- Nobody is alerted without a grant that says so: one of the team of this value, or of one that
the server takes for it. -/
def AlertsGranted (col : Collation) (db : Permissions) : Prop :=
  ∀ row ∈ db.alertServices col, ∃ value, col.same row.value value = true ∧
    db.Granted row.servId row.propId value

/-- A grant to a host, or to its domain, with a role for services of this type, that is not
for alerts or not for this host. -/
structure Stray (db : Permissions) (g : GrantRow) (s : ServiceRow) : Prop where
  grant : g ∈ db.hostsDirectTeams
  service : s ∈ db.services
  role : db.RoleMatches g s
  stray : ¬ (g.alert = some 1 ∧ s.hostId = g.id)

theorem granted_of_row {g : TeamServiceRow} (hg : g ∈ db.teamsAllServices)
    (hal : g.alert = some 1) (ht : db.TeamHas g.teamId propId value) :
    db.Granted g.servId propId value :=
  ⟨g.teamId, ht, g, hg, rfl, rfl, hal⟩

/-- The branches for services and apps alert by grants that say so. -/
theorem granted_of_pair {servId t : ℕ}
    (h : (servId, t) ∈ db.alertedServices ∨ (servId, t) ∈ db.alertedApps)
    (ht : db.TeamHas t propId value) : db.Granted servId propId value := by
  rcases h with hS | hA
  · obtain ⟨g, hg, hal, heq⟩ := mem_alertedServices.mp hS
    obtain ⟨rfl, rfl⟩ := Prod.mk.inj heq
    have hdirect : g ∈ db.servicesDirectTeams := by
      simp only [servicesDirectTeams, mem_union]
      exact Or.inl (Or.inl hg)
    exact granted_of_row (mem_teamsAllServices_of_service hdirect) hal ht
  · obtain ⟨g, hg, hal, s, hs, hc, -, heq⟩ := mem_alertedApps.mp hA
    obtain ⟨rfl, rfl⟩ := Prod.mk.inj heq
    have hdirect := mem_servicesDirectTeams_of_covers .app hg (Or.inr rfl) hc
    exact granted_of_row (mem_teamsAllServices_of_service hdirect) hal ht

/-- The alerts are granted exactly when the destinations of the stray grants to hosts are
granted by other grants. -/
theorem alerts_granted_iff (col : Collation) (db : Permissions) :
    db.AlertsGranted col ↔ ∀ g s, db.Stray g s → ∀ propId value,
      db.TeamHas g.teamId propId value →
        ∃ value', col.same value value' = true ∧ db.Granted s.id propId value' := by
  constructor
  · intro h g s hstray propId value ht
    have hpair : (s.id, g.teamId) ∈ db.alertedHosts :=
      mem_alertedHosts.mpr ⟨g, hstray.grant, s, hstray.service, hstray.role, rfl⟩
    have halerted : db.Alerted s.id propId value := ⟨g.teamId, ht, Or.inr (Or.inr hpair)⟩
    -- the view has the row in the spelling that it met first
    obtain ⟨value', hvalue, hrow⟩ := ((alertServices_lists col db).exists_value_iff s.id propId
      value).mpr ⟨value, col.refl value, halerted⟩
    obtain ⟨granted, hsame, hgranted⟩ := h _ hrow
    exact ⟨granted, col.trans hvalue hsame, hgranted⟩
  · intro h row hrow
    obtain ⟨t, ht, hpair⟩ := (alertServices_lists col db).sound row hrow
    rcases or_assoc.mpr hpair with hpair | hH
    · exact ⟨row.value, col.refl _, granted_of_pair hpair ht⟩
    · obtain ⟨g, hg, s, hs, hrole, heq⟩ := mem_alertedHosts.mp hH
      obtain ⟨hid, rfl⟩ := Prod.mk.inj heq
      rw [hid]
      by_cases hgood : g.alert = some 1 ∧ s.hostId = g.id
      · have hgranted := granted_of_row (mem_teamsAllServices_of_host hg hs hgood.2 hrole) hgood.1 ht
        exact ⟨row.value, col.refl _, hgranted⟩
      · exact h g s ⟨hg, hs, hrole, hgood⟩ row.propId row.value ht

/-! ### Every grant -/

/-- A grant that some branch of `p$alert_services` is made for gives the service the property. -/
def Reached (db : Permissions) (s : ServiceRow) (propId : ℕ) (value : String) : Prop :=
  ∃ t, db.TeamHas t propId value ∧
    ((∃ g ∈ db.pServices, g.alert = some 1 ∧ g.teamId = t ∧ db.Covers g s .service) ∨
      (∃ g ∈ db.pApps, g.alert = some 1 ∧ g.teamId = t ∧ db.Covers g s .app ∧
        db.RoleMatches g s) ∨
      ∃ g ∈ db.hostsDirectTeams, g.teamId = t ∧ db.RoleMatches g s)

theorem alerted_iff (hs : s ∈ db.services) :
    db.Alerted s.id propId value ↔ db.Reached s propId value := by
  refine exists_congr fun t => and_congr_right fun _ => or_congr ?_ (or_congr ?_ ?_)
  · rw [mem_alertedServices]
    refine exists_congr fun g => and_congr_right fun _ => and_congr_right fun _ => ?_
    rw [Prod.mk.injEq, and_comm, eq_comm, eq_comm (a := s.id)]
    rfl
  · rw [mem_alertedApps]
    refine exists_congr fun g => and_congr_right fun _ => and_congr_right fun _ => ?_
    constructor
    · rintro ⟨s', hs', hc, hrole, heq⟩
      obtain ⟨hid, rfl⟩ := Prod.mk.inj heq
      obtain rfl := service_eq_of_id hs hs' hid
      exact ⟨rfl, hc, hrole⟩
    · rintro ⟨rfl, hc, hrole⟩
      exact ⟨s, hs, hc, hrole, rfl⟩
  · rw [mem_alertedHosts]
    refine exists_congr fun g => and_congr_right fun _ => ?_
    constructor
    · rintro ⟨s', hs', hrole, heq⟩
      obtain ⟨hid, rfl⟩ := Prod.mk.inj heq
      obtain rfl := service_eq_of_id hs hs' hid
      exact ⟨rfl, hrole⟩
    · rintro ⟨rfl, hrole⟩
      exact ⟨s, hs, hrole, rfl⟩

/-- The grant is for alerts, and for the service with its type. -/
structure AlertsFor (db : Permissions) (kind : GrantKind) (g : GrantRow) (s : ServiceRow) :
    Prop where
  grant : g ∈ db.grants kind
  alert : g.alert = some 1
  service : s ∈ db.services
  covers : db.Covers g s kind
  role : db.RoleMatches g s

/-- Every property of the team of a grant for alerts, and of its users, is alerted: the view has
its value, or one that the server takes for it. -/
def GrantsReach (col : Collation) (db : Permissions) : Prop :=
  ∀ kind g s, db.AlertsFor kind g s → ∀ propId value, db.TeamHas g.teamId propId value →
    ∃ value', col.same value value' = true ∧ ⟨s.id, propId, value'⟩ ∈ db.alertServices col

/-- Every kind of grant but the one to groups has its branch. -/
theorem AlertsFor.reached {kind : GrantKind} {g : GrantRow} (h : db.AlertsFor kind g s)
    (hkind : kind ≠ .group) (ht : db.TeamHas g.teamId propId value) :
    db.Reached s propId value := by
  refine ⟨g.teamId, ht, ?_⟩
  cases kind with
  | service => exact Or.inl ⟨g, h.grant, h.alert, rfl, h.covers⟩
  | app => exact Or.inr (Or.inl ⟨g, h.grant, h.alert, rfl, h.covers, h.role⟩)
  | group => exact absurd rfl hkind
  | host =>
      exact Or.inr (Or.inr ⟨_, mem_hostsDirectTeams_of_covers .host h.grant (Or.inl rfl) h.covers,
        rfl, h.role⟩)
  | domain =>
      exact Or.inr (Or.inr ⟨_, mem_hostsDirectTeams_of_covers .domain h.grant (Or.inr rfl) h.covers,
        rfl, h.role⟩)

theorem exists_row_iff (hs : s ∈ db.services) :
    (∃ value', col.same value value' = true ∧ ⟨s.id, propId, value'⟩ ∈ db.alertServices col) ↔
      ∃ value', col.same value value' = true ∧ db.Reached s propId value' := by
  rw [(alertServices_lists col db).exists_value_iff s.id propId value]
  exact exists_congr fun value' => and_congr_right fun _ => alerted_iff hs

/-- Every grant reaches its destinations exactly when those of the grants to groups are
reached by other grants. -/
theorem grants_reach_iff (col : Collation) (db : Permissions) :
    db.GrantsReach col ↔ ∀ g s, db.AlertsFor .group g s → ∀ propId value,
      db.TeamHas g.teamId propId value →
        ∃ value', col.same value value' = true ∧ db.Reached s propId value' := by
  constructor
  · intro h g s hfor propId value ht
    exact (exists_row_iff hfor.service).mp (h .group g s hfor propId value ht)
  · intro h kind g s hfor propId value ht
    rw [exists_row_iff hfor.service]
    by_cases hkind : kind = .group
    · subst hkind
      exact h g s hfor propId value ht
    · exact ⟨value, col.refl value, hfor.reached hkind ht⟩

/-! ### Two contents of the tables -/

def noGrants : Permissions where
  hosts := []
  services := []
  apps := []
  appServices := []
  roles := []
  teams := []
  teamProperties := []
  userTeams := []
  userProperties := []
  pServices := []
  pApps := []
  pGroups := []
  pHosts := []
  pDomains := []
  keyed := List.nodup_nil

/-- A database server on a host in production, and a team of database administrators for
development with no alerts, as the schema grants it. -/
def devTeam : Permissions :=
  { noGrants with
    hosts := [⟨1, some 1⟩, ⟨2, some 4⟩]
    services := [⟨1, 1, some 1, "mysql"⟩]
    roles := [⟨2, some 1⟩]
    teamProperties := [⟨6, 1, "dev"⟩]
    pDomains := [⟨4, 6, 2, none⟩]
    keyed := by decide }

theorem dev_team_alerted : ¬ devTeam.AlertsGranted .binary := by
  intro h
  have hrow : ⟨1, 1, "dev"⟩ ∈ devTeam.alertServices .binary := by decide
  have hnone : ∀ row ∈ devTeam.teamsAllServices, row.alert ≠ some 1 := by decide
  obtain ⟨-, -, t, -, row, hmem, -, -, hal⟩ := h _ hrow
  exact hnone row hmem hal

/-- A team with alerts for the services of a group. -/
def groupTeam : Permissions :=
  { noGrants with
    services := [⟨1, 1, some 1, "mysql"⟩]
    apps := [⟨1, some 1⟩]
    appServices := [⟨1, 1⟩]
    roles := [⟨2, some 1⟩]
    teamProperties := [⟨6, 1, "ops"⟩]
    pGroups := [⟨1, 6, 2, some 1⟩]
    keyed := by decide }

theorem group_team_not_alerted : ¬ groupTeam.GrantsReach .binary := by
  intro h
  have hfor : groupTeam.AlertsFor .group ⟨1, 6, 2, some 1⟩ ⟨1, 1, some 1, "mysql"⟩ := by
    refine ⟨?_, rfl, ?_, ⟨⟨1, some 1⟩, ?_, rfl, ?_⟩, ⟨2, some 1⟩, ?_, rfl, rfl⟩ <;> decide
  have hnone : groupTeam.alertServices .binary = [] := by decide
  obtain ⟨value, -, hrow⟩ := h .group _ _ hfor 1 "ops" (Or.inl (by decide))
  rw [hnone] at hrow
  cases hrow

end Permissions

end WatchedBack
