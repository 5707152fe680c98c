import WatchedBack.Library.UniqueIndex
import WatchedBack.Model.Services

/-! The lookups of `dbTools.cpp` cut at their statements, called by any number of agent threads
and backends on common tables. -/

namespace WatchedBack

open UniqueIndex

/-- A row of `b$backend`. -/
structure BackendRow where
  id : ℕ
  hostname : String
  filename : String
  deriving DecidableEq, Repr

section indexes

variable (col : Collation)

/-- The unique index of `h$hosts`, and that of `s$types`. -/
def nameIndex : Index NameRow String where
  idOf := NameRow.id
  keyOf := NameRow.name
  row id name := ⟨id, name⟩
  same := col.same
  refl := col.refl
  symm := col.symm
  trans := col.trans
  idOf_row _ _ := rfl
  keyOf_row _ _ := rfl

/-- The unique index of `s$services`. -/
def serviceIndex : Index ServiceRow (ℕ × String) where
  idOf := ServiceRow.id
  keyOf row := (row.hostId, row.name)
  row id k := ⟨id, k.1, none, k.2⟩
  same k l := k.1 = l.1 ∧ col.same k.2 l.2
  refl k := by simp [col.refl]
  symm h := by
    simp only [decide_eq_true_eq] at h ⊢
    exact ⟨h.1.symm, col.symm h.2⟩
  trans h h' := by
    simp only [decide_eq_true_eq] at h h' ⊢
    exact ⟨h.1.trans h'.1, col.trans h.2 h'.2⟩
  idOf_row _ _ := rfl
  keyOf_row _ _ := rfl

/-- The unique index of `b$backend`. -/
def backendIndex : Index BackendRow (String × String) where
  idOf := BackendRow.id
  keyOf row := (row.hostname, row.filename)
  row id k := ⟨id, k.1, k.2⟩
  same k l := col.same k.1 l.1 ∧ col.same k.2 l.2
  refl k := by simp [col.refl]
  symm h := by
    simp only [decide_eq_true_eq] at h ⊢
    exact ⟨col.symm h.1, col.symm h.2⟩
  trans h h' := by
    simp only [decide_eq_true_eq] at h h' ⊢
    exact ⟨col.trans h.1 h'.1, col.trans h.2 h'.2⟩
  idOf_row _ _ := rfl
  keyOf_row _ _ := rfl

structure NameTables where
  hosts : Table (nameIndex col)
  types : Table (nameIndex col)
  services : Table (serviceIndex col)
  backends : Table (backendIndex col)

end indexes

/-- A call of one of the lookups, with its arguments. -/
inductive Lookup
  | getHost (host_name : String)
  | getService (host_id : ℕ) (service : String)
  | getServiceType (type : String)
  | getBackend (me cfg : String)
  deriving DecidableEq, Repr

namespace NameTables

variable {col : Collation} (t : NameTables col) (gap : ℕ)

def noNames (col : Collation) : NameTables col := ⟨.empty _, .empty _, .empty _, .empty _⟩

/-- The next statement of a call. -/
def exec : Lookup → Point → NameTables col × Point
  | .getHost name, p =>
      let (hosts, p) := t.hosts.step (fun row => col.same row.name name) name gap p
      ({ t with hosts := hosts }, p)
  | .getService hostId service, p =>
      let (services, p) := t.services.step
        (fun row => row.hostId = hostId ∧ col.same row.name service) (hostId, service) gap p
      ({ t with services := services }, p)
  | .getServiceType type, p =>
      let (types, p) := t.types.step (fun row => col.same row.name type) type gap p
      ({ t with types := types }, p)
  | .getBackend me cfg, p =>
      let (backends, p) := t.backends.step
        (fun row => col.same row.hostname me ∧ col.same row.filename cfg) (me, cfg) gap p
      ({ t with backends := backends }, p)

end NameTables

/-- The tables, and where the calls stand that have been made. -/
structure Lookups (col : Collation) where
  tables : NameTables col
  calls : ℕ → Option (Lookup × Point)

/-- A call is made, or sends its next statement; `gap` counts the numbers that were lost before
its insert. -/
inductive LookupMove
  | call (n : ℕ) (lookup : Lookup)
  | step (n gap : ℕ)

namespace Lookups

variable {col : Collation}

def start (t : NameTables col) : Lookups col := ⟨t, fun _ => none⟩

def move (s : Lookups col) : LookupMove → Lookups col
  | .call n lookup =>
      match s.calls n with
      | none => { s with calls := Function.update s.calls n (some (lookup, .count)) }
      | some _ => s
  | .step n gap =>
      match s.calls n with
      | none => s
      | some (lookup, p) =>
          let (tables, p) := s.tables.exec gap lookup p
          ⟨tables, Function.update s.calls n (some (lookup, p))⟩

def run (s : Lookups col) (moves : List LookupMove) : Lookups col := moves.foldl move s

end Lookups

end WatchedBack
