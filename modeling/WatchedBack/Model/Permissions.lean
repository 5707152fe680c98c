import WatchedBack.Library.Reports
import WatchedBack.Model.Services

/-! The tables of teams, users and grants, and the views of `schema.sql` that say who sees what and
who is alerted. -/

namespace WatchedBack

open Reports

structure HostRow where
  id : ℕ
  domainId : Option ℕ
  deriving DecidableEq, Repr

structure AppRow where
  id : ℕ
  groupId : Option ℕ
  deriving DecidableEq, Repr

/-- A row of `a$services`. -/
structure AppServiceRow where
  appId : ℕ
  servId : ℕ
  deriving DecidableEq, Repr

structure RoleRow where
  id : ℕ
  servTypeId : Option ℕ
  deriving DecidableEq, Repr

/-- A boolean column is a number, and true is 1. -/
abbrev Flag := Option ℤ

structure TeamRow where
  id : ℕ
  superadmin : Flag
  deriving DecidableEq, Repr

/-- A row of `p$team_properties` or `u$properties`, of a team or of a user. -/
structure PropertyRow where
  ownerId : ℕ
  propId : ℕ
  value : String
  deriving DecidableEq, Repr

/-- A row of `u$teams`. -/
structure UserTeamRow where
  userId : ℕ
  teamId : ℕ
  deriving DecidableEq, Repr

/-- A row of `p$services`, `p$apps`, `p$groups`, `p$hosts` or `p$domains`: `id` is that of
the service, the app and so on. -/
structure GrantRow where
  id : ℕ
  teamId : ℕ
  roleId : ℕ
  alert : Flag
  deriving DecidableEq, Repr

/-- `id` is the primary key of `s$services`. -/
structure Permissions where
  hosts : List HostRow
  services : List ServiceRow
  apps : List AppRow
  appServices : List AppServiceRow
  roles : List RoleRow
  teams : List TeamRow
  teamProperties : List PropertyRow
  userTeams : List UserTeamRow
  userProperties : List PropertyRow
  pServices : List GrantRow
  pApps : List GrantRow
  pGroups : List GrantRow
  pHosts : List GrantRow
  pDomains : List GrantRow
  keyed : (services.map ServiceRow.id).Nodup

/-- `a=b` of two nullable columns. -/
def sqlEq (a b : Option ℕ) : Bool := a.isSome && a = b

/-- `union` of rows of keys and flags. -/
def union {α : Type} [DecidableEq α] (xs ys : List α) : List α := (xs ++ ys).dedup

/-- A row of `p$teams_all_services`. -/
structure TeamServiceRow where
  teamId : ℕ
  servId : ℕ
  roleId : Option ℕ
  alert : Flag
  deriving DecidableEq, Repr

/-- A row of `p$teams_all_hosts`. -/
structure TeamHostRow where
  teamId : ℕ
  hostId : ℕ
  roleId : Option ℕ
  alert : Flag
  deriving DecidableEq, Repr

/-- A row of `p$users_all_hosts` and of the views like it. -/
structure UserRow (α : Type) where
  userId : ℕ
  id : α
  roleId : Option ℕ
  deriving DecidableEq, Repr

/-- A row of `p$alert_services`. -/
structure AlertServiceRow where
  servId : ℕ
  propId : ℕ
  value : String
  deriving DecidableEq, Repr

/-- A row of `p$alert_hosts`. -/
structure AlertHostRow where
  hostId : ℕ
  propId : ℕ
  value : String
  deriving DecidableEq, Repr

namespace AlertServiceRow

variable (col : Collation)

/-- Rows that a `union` takes for one. -/
def likeness : Likeness AlertServiceRow where
  same x y := x.servId = y.servId ∧ x.propId = y.propId ∧ col.same x.value y.value
  refl x := by simp [col.refl]
  symm h := by
    simp only [decide_eq_true_eq] at h ⊢
    exact ⟨h.1.symm, h.2.1.symm, col.symm h.2.2⟩
  trans h h' := by
    simp only [decide_eq_true_eq] at h h' ⊢
    exact ⟨h.1.trans h'.1, h.2.1.trans h'.2.1, col.trans h.2.2 h'.2.2⟩

def union (rows rows' : List AlertServiceRow) : List AlertServiceRow :=
  (likeness col).firsts [] (rows ++ rows')

end AlertServiceRow

namespace Permissions

variable (col : Collation) (db : Permissions)

/-- `p$hosts_direct_teams` -/
def hostsDirectTeams : List GrantRow :=
  union db.pHosts
    (db.pDomains.flatMap fun d =>
      (db.hosts.filter fun hh => hh.domainId = some d.id).map fun hh =>
        ⟨hh.id, d.teamId, d.roleId, d.alert⟩)

/-- `p$services_direct_teams` -/
def servicesDirectTeams : List GrantRow :=
  union
    (union db.pServices
      (db.pApps.flatMap fun a =>
        (db.appServices.filter fun sa => sa.appId = a.id).map fun sa =>
          ⟨sa.servId, a.teamId, a.roleId, a.alert⟩))
    (db.pGroups.flatMap fun g =>
      (db.apps.filter fun a => a.groupId = some g.id).flatMap fun a =>
        (db.appServices.filter fun sa => sa.appId = a.id).map fun sa =>
          ⟨sa.servId, g.teamId, g.roleId, g.alert⟩)

/-- `p$teams_all_services` -/
def teamsAllServices : List TeamServiceRow :=
  union
    (union
      (db.servicesDirectTeams.map fun sdt => ⟨sdt.teamId, sdt.id, some sdt.roleId, sdt.alert⟩)
      (db.hostsDirectTeams.flatMap fun hdt =>
        (db.services.filter fun s => s.hostId = hdt.id).flatMap fun s =>
          (db.roles.filter fun r => r.id = hdt.roleId ∧
              (r.servTypeId = none ∨ sqlEq r.servTypeId s.typeId)).map fun _ =>
            ⟨hdt.teamId, s.id, some hdt.roleId, hdt.alert⟩))
    ((db.teams.filter fun t => t.superadmin = some 1).flatMap fun t =>
      db.services.map fun s => ⟨t.id, s.id, none, none⟩)

/-- `p$teams_all_hosts` -/
def teamsAllHosts : List TeamHostRow :=
  union
    (union
      (db.hostsDirectTeams.map fun hdt => ⟨hdt.teamId, hdt.id, some hdt.roleId, hdt.alert⟩)
      (db.servicesDirectTeams.flatMap fun sdt =>
        (db.services.filter fun s => s.id = sdt.id).map fun s =>
          ⟨sdt.teamId, s.hostId, some sdt.roleId, sdt.alert⟩))
    ((db.teams.filter fun t => t.superadmin = some 1).flatMap fun t =>
      db.hosts.map fun h => ⟨t.id, h.id, none, none⟩)

/-! ### Users -/

/-- `p$users_all_hosts` -/
def usersAllHosts : List (UserRow ℕ) :=
  db.teamsAllHosts.flatMap fun th =>
    (db.userTeams.filter fun ut => ut.teamId = th.teamId).map fun ut =>
      ⟨ut.userId, th.hostId, th.roleId⟩

/-- `p$users_all_domains` -/
def usersAllDomains : List (UserRow (Option ℕ)) :=
  (db.teamsAllHosts.flatMap fun th =>
    (db.userTeams.filter fun ut => ut.teamId = th.teamId).flatMap fun ut =>
      (db.hosts.filter fun h => th.hostId = h.id).map fun h =>
        ⟨ut.userId, h.domainId, th.roleId⟩).dedup

/-- `p$users_all_services` -/
def usersAllServices : List (UserRow ℕ) :=
  db.teamsAllServices.flatMap fun ts =>
    (db.userTeams.filter fun ut => ut.teamId = ts.teamId).map fun ut =>
      ⟨ut.userId, ts.servId, ts.roleId⟩

/-- `p$users_all_apps` -/
def usersAllApps : List (UserRow ℕ) :=
  (db.teamsAllServices.flatMap fun ts =>
    (db.userTeams.filter fun ut => ut.teamId = ts.teamId).flatMap fun ut =>
      (db.appServices.filter fun a => ts.servId = a.servId).map fun a =>
        ⟨ut.userId, a.appId, ts.roleId⟩).dedup

/-- `p$users_all_groups` -/
def usersAllGroups : List (UserRow (Option ℕ)) :=
  (db.teamsAllServices.flatMap fun ts =>
    (db.userTeams.filter fun ut => ut.teamId = ts.teamId).flatMap fun ut =>
      (db.appServices.filter fun a => ts.servId = a.servId).flatMap fun a =>
        (db.apps.filter fun aa => a.appId = aa.id).map fun aa =>
          ⟨ut.userId, aa.groupId, ts.roleId⟩).dedup

/-! ### `p$alert_services`

Its six branches are three ways to a pair of a service and a team, each taken once for the
properties of the team and once for those of its users. -/

/-- `s.alert=true` -/
def alertedServices : List (ℕ × ℕ) :=
  (db.pServices.filter fun s => s.alert = some 1).map fun s => (s.id, s.teamId)

def alertedApps : List (ℕ × ℕ) :=
  (db.pApps.filter fun a => a.alert = some 1).flatMap fun a =>
    (db.appServices.filter fun sa => sa.appId = a.id).flatMap fun sa =>
      (db.services.filter fun s => sa.servId = s.id).flatMap fun s =>
        (db.roles.filter fun r => a.roleId = r.id ∧ sqlEq r.servTypeId s.typeId).map fun _ =>
          (sa.servId, a.teamId)

def alertedHosts : List (ℕ × ℕ) :=
  db.hostsDirectTeams.flatMap fun hdt =>
    (db.roles.filter fun r => r.id = hdt.roleId).flatMap fun r =>
      (db.services.filter fun s => sqlEq s.typeId r.servTypeId).map fun s => (s.id, hdt.teamId)

def ofTeams (pairs : List (ℕ × ℕ)) : List AlertServiceRow :=
  pairs.flatMap fun p =>
    (db.teamProperties.filter fun tp => p.2 = tp.ownerId).map fun tp =>
      ⟨p.1, tp.propId, tp.value⟩

def ofUsers (pairs : List (ℕ × ℕ)) : List AlertServiceRow :=
  pairs.flatMap fun p =>
    (db.userTeams.filter fun t => t.teamId = p.2).flatMap fun t =>
      (db.userProperties.filter fun up => up.ownerId = t.userId).map fun up =>
        ⟨p.1, up.propId, up.value⟩

/-- `p$alert_services` -/
def alertServices : List AlertServiceRow :=
  AlertServiceRow.union col
    (AlertServiceRow.union col
      (AlertServiceRow.union col
        (AlertServiceRow.union col
          (AlertServiceRow.union col (db.ofTeams db.alertedServices) (db.ofTeams db.alertedApps))
          (db.ofTeams db.alertedHosts))
        (db.ofUsers db.alertedServices))
      (db.ofUsers db.alertedApps))
    (db.ofUsers db.alertedHosts)

/-! ### `p$alert_hosts`

Its four branches are two ways to a pair of a host and a team. -/

/-- `rh.serv_type_id is null` -/
def hostRoles (g : GrantRow) : List RoleRow :=
  db.roles.filter fun r => r.id = g.roleId ∧ r.servTypeId = none

def grantedHosts : List (ℕ × ℕ) :=
  (db.pHosts.filter fun h => h.alert = some 1).flatMap fun h =>
    (db.hostRoles h).map fun _ => (h.id, h.teamId)

def grantedDomains : List (ℕ × ℕ) :=
  (db.pDomains.filter fun d => d.alert = some 1).flatMap fun d =>
    (db.hosts.filter fun hh => hh.domainId = some d.id).flatMap fun hh =>
      (db.hostRoles d).map fun _ => (hh.id, d.teamId)

/-- `p$alert_hosts` -/
def alertHosts : List AlertHostRow :=
  (AlertServiceRow.union col
    (AlertServiceRow.union col
      (AlertServiceRow.union col (db.ofTeams db.grantedHosts) (db.ofTeams db.grantedDomains))
      (db.ofUsers db.grantedHosts))
    (db.ofUsers db.grantedDomains)).map fun row => ⟨row.servId, row.propId, row.value⟩

/-! ### Destinations

`c$properties` has the names of the alerters. -/

/-- The query of `sendHostRessource`. -/
def hostDests (properties : List NameRow) (hostId : ℕ) : List (String × String) :=
  ((db.alertHosts col).filter fun a => a.hostId = hostId).flatMap fun a =>
    (properties.filter fun p => a.propId = p.id).map fun p => (p.name, a.value)

/-- The query of `sendService`, `sendLog` and `sendServRessource`. -/
def serviceDests (properties : List NameRow) (servId : ℕ) : List (String × String) :=
  ((db.alertServices col).filter fun a => a.servId = servId).flatMap fun a =>
    (properties.filter fun p => a.propId = p.id).map fun p => (p.name, a.value)

end Permissions

end WatchedBack
