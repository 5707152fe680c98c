import WatchedBack.Model.Permissions

/-! What a row of each view says of the tables. -/

namespace WatchedBack

open Reports

@[simp] theorem mem_union {α : Type} [DecidableEq α] {xs ys : List α} {x : α} :
    x ∈ union xs ys ↔ x ∈ xs ∨ x ∈ ys := by
  rw [union, List.mem_dedup, List.mem_append]

theorem sqlEq_comm (a b : Option ℕ) : sqlEq a b = sqlEq b a := by
  cases a <;> cases b <;> simp [sqlEq, eq_comm]

namespace AlertServiceRow

variable {col : Collation} {rows rows' : List AlertServiceRow} {row row' : AlertServiceRow}

theorem same_iff : (likeness col).same row row' = true ↔
    row.servId = row'.servId ∧ row.propId = row'.propId ∧ col.same row.value row'.value = true :=
  decide_eq_true_iff

/-- The rows of a table, but for the spelling of their values. -/
structure Lists (col : Collation) (rows : List AlertServiceRow) (P : AlertServiceRow → Prop) :
    Prop where
  sound : ∀ row ∈ rows, P row
  complete : ∀ row, P row → (likeness col).seenIn rows row = true

theorem Lists.refl (col : Collation) (rows : List AlertServiceRow) :
    Lists col rows (· ∈ rows) where
  sound _ h := h
  complete _ h := Likeness.seenIn_of_mem h

theorem Lists.union {P Q : AlertServiceRow → Prop} (h : Lists col rows P)
    (h' : Lists col rows' Q) : Lists col (union col rows rows') fun row => P row ∨ Q row where
  sound row hrow := by
    rcases List.mem_append.mp (Likeness.mem_of_mem_firsts hrow).1 with hrow | hrow
    · exact Or.inl (h.sound row hrow)
    · exact Or.inr (h'.sound row hrow)
  complete row hrow := by
    rw [AlertServiceRow.union, Likeness.seenIn_firsts, Likeness.seenIn_append, Bool.or_eq_true]
    exact hrow.imp (h.complete row) (h'.complete row)

theorem Lists.congr {P Q : AlertServiceRow → Prop} (h : Lists col rows P)
    (heq : ∀ row, P row ↔ Q row) : Lists col rows Q where
  sound row hrow := (heq row).mp (h.sound row hrow)
  complete row hrow := h.complete row ((heq row).mpr hrow)

/-- A value is in the table, in some spelling, exactly where one of its spellings is meant to be. -/
theorem Lists.exists_value_iff {P : AlertServiceRow → Prop} (h : Lists col rows P)
    (servId propId : ℕ) (value : String) :
    (∃ value', col.same value value' = true ∧ ⟨servId, propId, value'⟩ ∈ rows) ↔
      ∃ value', col.same value value' = true ∧ P ⟨servId, propId, value'⟩ := by
  constructor
  · rintro ⟨value', hvalue, hrow⟩
    exact ⟨value', hvalue, h.sound _ hrow⟩
  · rintro ⟨value', hvalue, hP⟩
    obtain ⟨row, hrow, hsame⟩ := Likeness.seenIn_iff.mp (h.complete _ hP)
    obtain ⟨rfl, rfl, hvalue'⟩ := same_iff.mp hsame
    exact ⟨row.value, col.trans hvalue hvalue', hrow⟩

theorem pairwise_union (col : Collation) (rows rows' : List AlertServiceRow) :
    (union col rows rows').Pairwise fun a b => (likeness col).same a b = false :=
  Likeness.pairwise_firsts [] (rows ++ rows')

end AlertServiceRow

/-- What a grant may be given for. -/
inductive GrantKind
  | service | app | group | host | domain
  deriving DecidableEq, Repr

namespace Permissions

variable {col : Collation} {db : Permissions} {g : GrantRow} {s s' : ServiceRow} {t : ℕ}

def grants (db : Permissions) : GrantKind → List GrantRow
  | .service => db.pServices
  | .app => db.pApps
  | .group => db.pGroups
  | .host => db.pHosts
  | .domain => db.pDomains

/-- The service is the one of the grant, or belongs to the app, to an app of the group, to
the host or to a host of the domain. -/
def Covers (db : Permissions) (g : GrantRow) (s : ServiceRow) : GrantKind → Prop
  | .service => g.id = s.id
  | .app => ⟨g.id, s.id⟩ ∈ db.appServices
  | .group => ∃ a ∈ db.apps, a.groupId = some g.id ∧ ⟨a.id, s.id⟩ ∈ db.appServices
  | .host => s.hostId = g.id
  | .domain => ∃ h ∈ db.hosts, h.domainId = some g.id ∧ s.hostId = h.id

/-- The type of the service is the one of the role. -/
def RoleMatches (db : Permissions) (g : GrantRow) (s : ServiceRow) : Prop :=
  ∃ r ∈ db.roles, r.id = g.roleId ∧ sqlEq r.servTypeId s.typeId = true

/-- The team, or a user in it, has the property. -/
def TeamHas (db : Permissions) (t propId : ℕ) (value : String) : Prop :=
  ⟨t, propId, value⟩ ∈ db.teamProperties ∨
    ∃ u, ⟨u, t⟩ ∈ db.userTeams ∧ ⟨u, propId, value⟩ ∈ db.userProperties

theorem service_eq_of_id (hs : s ∈ db.services) (hs' : s' ∈ db.services) (h : s.id = s'.id) :
    s = s' :=
  List.inj_on_of_nodup_map db.keyed hs hs' h

theorem mem_hostsDirectTeams :
    g ∈ db.hostsDirectTeams ↔ g ∈ db.pHosts ∨
      ∃ d ∈ db.pDomains, ∃ h ∈ db.hosts, h.domainId = some d.id ∧
        g = ⟨h.id, d.teamId, d.roleId, d.alert⟩ := by
  simp only [hostsDirectTeams, mem_union, List.mem_flatMap, List.mem_map, List.mem_filter,
    decide_eq_true_eq, and_assoc, eq_comm (a := g)]

theorem mem_hostsDirectTeams_of_covers (kind : GrantKind) (hg : g ∈ db.grants kind)
    (hkind : kind = .host ∨ kind = .domain) (hc : db.Covers g s kind) :
    ⟨s.hostId, g.teamId, g.roleId, g.alert⟩ ∈ db.hostsDirectTeams := by
  rw [mem_hostsDirectTeams]
  rcases hkind with rfl | rfl
  · left
    rw [show s.hostId = g.id from hc]
    exact hg
  · obtain ⟨h, hh, hdomain, hhost⟩ := hc
    exact Or.inr ⟨g, hg, h, hh, hdomain, by rw [hhost]⟩

theorem mem_servicesDirectTeams_of_covers (kind : GrantKind) (hg : g ∈ db.grants kind)
    (hkind : kind = .service ∨ kind = .app) (hc : db.Covers g s kind) :
    ⟨s.id, g.teamId, g.roleId, g.alert⟩ ∈ db.servicesDirectTeams := by
  simp only [servicesDirectTeams, mem_union, List.mem_flatMap, List.mem_map, List.mem_filter,
    decide_eq_true_eq]
  rcases hkind with rfl | rfl
  · left
    left
    rw [show s.id = g.id from hc.symm]
    exact hg
  · left
    right
    exact ⟨g, hg, ⟨g.id, s.id⟩, ⟨hc, rfl⟩, rfl⟩

theorem mem_teamsAllServices_of_service (hg : g ∈ db.servicesDirectTeams) :
    ⟨g.teamId, g.id, some g.roleId, g.alert⟩ ∈ db.teamsAllServices := by
  simp only [teamsAllServices, mem_union, List.mem_map]
  exact Or.inl (Or.inl ⟨g, hg, rfl⟩)

theorem mem_teamsAllServices_of_host (hg : g ∈ db.hostsDirectTeams) (hs : s ∈ db.services)
    (hhost : s.hostId = g.id) (hrole : db.RoleMatches g s) :
    ⟨g.teamId, s.id, some g.roleId, g.alert⟩ ∈ db.teamsAllServices := by
  obtain ⟨r, hr, hid, htype⟩ := hrole
  simp only [teamsAllServices, mem_union, List.mem_flatMap, List.mem_map, List.mem_filter,
    decide_eq_true_eq]
  exact Or.inl (Or.inr ⟨g, hg, s, ⟨hs, hhost⟩, r, ⟨hr, hid, Or.inr htype⟩, rfl⟩)

/-! ### The pairs of a service and a team -/

theorem mem_alertedServices {p : ℕ × ℕ} :
    p ∈ db.alertedServices ↔ ∃ g ∈ db.pServices, g.alert = some 1 ∧ p = (g.id, g.teamId) := by
  simp only [alertedServices, List.mem_map, List.mem_filter, decide_eq_true_eq, and_assoc,
    eq_comm (a := p)]

theorem mem_alertedApps {p : ℕ × ℕ} :
    p ∈ db.alertedApps ↔ ∃ g ∈ db.pApps, g.alert = some 1 ∧ ∃ s ∈ db.services,
      db.Covers g s .app ∧ db.RoleMatches g s ∧ p = (s.id, g.teamId) := by
  simp only [alertedApps, List.mem_flatMap, List.mem_map, List.mem_filter, decide_eq_true_eq]
  constructor
  · rintro ⟨g, ⟨hg, hal⟩, sa, ⟨hsa, happ⟩, s, ⟨hs, hid⟩, r, ⟨hr, hrole, htype⟩, rfl⟩
    refine ⟨g, hg, hal, s, hs, ?_, ⟨r, hr, hrole.symm, htype⟩, by rw [hid]⟩
    change ⟨g.id, s.id⟩ ∈ db.appServices
    rw [← happ, ← hid]
    exact hsa
  · rintro ⟨g, hg, hal, s, hs, hc, ⟨r, hr, hrole, htype⟩, rfl⟩
    exact ⟨g, ⟨hg, hal⟩, ⟨g.id, s.id⟩, ⟨hc, rfl⟩, s, ⟨hs, rfl⟩, r, ⟨hr, hrole.symm, htype⟩, rfl⟩

/-- The host of the service does not matter, nor does the flag of the grant. -/
theorem mem_alertedHosts {p : ℕ × ℕ} :
    p ∈ db.alertedHosts ↔ ∃ g ∈ db.hostsDirectTeams, ∃ s ∈ db.services,
      db.RoleMatches g s ∧ p = (s.id, g.teamId) := by
  simp only [alertedHosts, List.mem_flatMap, List.mem_map, List.mem_filter, decide_eq_true_eq]
  constructor
  · rintro ⟨g, hg, r, ⟨hr, hrole⟩, s, ⟨hs, htype⟩, rfl⟩
    exact ⟨g, hg, s, hs, ⟨r, hr, hrole, by rwa [sqlEq_comm]⟩, rfl⟩
  · rintro ⟨g, hg, s, hs, ⟨r, hr, hrole, htype⟩, rfl⟩
    exact ⟨g, hg, r, ⟨hr, hrole⟩, s, ⟨hs, by rwa [sqlEq_comm]⟩, rfl⟩

/-! ### The destinations of the pairs -/

theorem mem_ofTeams_or_ofUsers {pairs : List (ℕ × ℕ)} {row : AlertServiceRow} :
    row ∈ db.ofTeams pairs ∨ row ∈ db.ofUsers pairs ↔
      ∃ t, (row.servId, t) ∈ pairs ∧ db.TeamHas t row.propId row.value := by
  simp only [ofTeams, ofUsers, List.mem_flatMap, List.mem_map, List.mem_filter, decide_eq_true_eq]
  constructor
  · rintro (⟨p, hp, tp, ⟨htp, hteam⟩, rfl⟩ | ⟨p, hp, ut, ⟨hut, hteam⟩, up, ⟨hup, huser⟩, rfl⟩)
    · exact ⟨p.2, hp, Or.inl (by rw [hteam]; exact htp)⟩
    · refine ⟨p.2, hp, Or.inr ⟨ut.userId, ?_, ?_⟩⟩
      · rw [← hteam]
        exact hut
      · rw [← huser]
        exact hup
  · rintro ⟨t, ht, htp | ⟨u, hut, hup⟩⟩
    · exact Or.inl ⟨_, ht, _, ⟨htp, rfl⟩, rfl⟩
    · exact Or.inr ⟨_, ht, _, ⟨hut, rfl⟩, _, ⟨hup, rfl⟩, rfl⟩

/-- The team of a pair of `p$alert_services` has the property. -/
def Alerted (db : Permissions) (servId propId : ℕ) (value : String) : Prop :=
  ∃ t, db.TeamHas t propId value ∧
    ((servId, t) ∈ db.alertedServices ∨ (servId, t) ∈ db.alertedApps ∨
      (servId, t) ∈ db.alertedHosts)

theorem alertServices_lists (col : Collation) (db : Permissions) :
    AlertServiceRow.Lists col (db.alertServices col) fun row =>
      db.Alerted row.servId row.propId row.value := by
  have hlists := AlertServiceRow.Lists.refl col
  have hteams := ((hlists (db.ofTeams db.alertedServices)).union
    (hlists (db.ofTeams db.alertedApps))).union (hlists (db.ofTeams db.alertedHosts))
  have hview := ((hteams.union (hlists (db.ofUsers db.alertedServices))).union
    (hlists (db.ofUsers db.alertedApps))).union (hlists (db.ofUsers db.alertedHosts))
  refine hview.congr fun row => ?_
  have hbranches : db.Alerted row.servId row.propId row.value ↔
      (row ∈ db.ofTeams db.alertedServices ∨ row ∈ db.ofUsers db.alertedServices) ∨
      (row ∈ db.ofTeams db.alertedApps ∨ row ∈ db.ofUsers db.alertedApps) ∨
      (row ∈ db.ofTeams db.alertedHosts ∨ row ∈ db.ofUsers db.alertedHosts) := by
    simp only [mem_ofTeams_or_ofUsers, ← exists_or, ← or_and_right]
    exact exists_congr fun t => and_comm
  rw [hbranches]
  tauto

end Permissions

end WatchedBack
