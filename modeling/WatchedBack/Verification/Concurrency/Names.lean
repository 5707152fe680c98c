import WatchedBack.Model.Lookups

/-! # One identity for a name

Of the calls that find no row under a key and insert one, the unique index lets the first
through. The select that ends a call finds that row, whoever inserted it. -/

namespace WatchedBack

open UniqueIndex

inductive NameTable
  | hosts | types | services | backends
  deriving DecidableEq, Repr

namespace Lookup

def table : Lookup → NameTable
  | getHost _ => .hosts
  | getService _ _ => .services
  | getServiceType _ => .types
  | getBackend _ _ => .backends

/-- Both calls ask one table for one key. -/
def same (col : Collation) : Lookup → Lookup → Bool
  | getHost a, getHost b => col.same a b
  | getService h a, getService h' b => h = h' ∧ col.same a b
  | getServiceType a, getServiceType b => col.same a b
  | getBackend a f, getBackend b g => col.same a b ∧ col.same f g
  | _, _ => false

end Lookup

variable {col : Collation}

namespace NameTables

variable {t t' : NameTables col} {gap : ℕ} {lookup : Lookup} {p : Point}

/-- How many rows have the key of a call. -/
def countRows (t : NameTables col) : Lookup → ℕ
  | .getHost name => t.hosts.rows.countP fun row => col.same row.name name
  | .getService hostId service =>
      t.services.rows.countP fun row => row.hostId = hostId ∧ col.same row.name service
  | .getServiceType type => t.types.rows.countP fun row => col.same row.name type
  | .getBackend me cfg =>
      t.backends.rows.countP fun row => col.same row.hostname me ∧ col.same row.filename cfg

/-- What a call may rely on at a point, and what it has returned. -/
def Serves (t : NameTables col) : Lookup → Point → Prop
  | .getHost name, p => t.hosts.Serves ((nameIndex col).found name) p
  | .getService hostId service, p => t.services.Serves ((serviceIndex col).found (hostId, service)) p
  | .getServiceType type, p => t.types.Serves ((nameIndex col).found type) p
  | .getBackend me cfg, p => t.backends.Serves ((backendIndex col).found (me, cfg)) p

/-- Rows are only added. -/
structure Grows (t t' : NameTables col) : Prop where
  hosts : t.hosts.rows ⊆ t'.hosts.rows
  types : t.types.rows ⊆ t'.types.rows
  services : t.services.rows ⊆ t'.services.rows
  backends : t.backends.rows ⊆ t'.backends.rows

theorem exec_grows (t : NameTables col) (gap : ℕ) (lookup : Lookup) (p : Point) :
    t.Grows (t.exec gap lookup p).1 := by
  have hrefl : t.Grows t :=
    ⟨List.Subset.refl _, List.Subset.refl _, List.Subset.refl _, List.Subset.refl _⟩
  cases lookup with
  | getHost name => exact { hrefl with hosts := Table.rows_subset_step _ _ _ _ _ }
  | getService hostId service => exact { hrefl with services := Table.rows_subset_step _ _ _ _ _ }
  | getServiceType type => exact { hrefl with types := Table.rows_subset_step _ _ _ _ _ }
  | getBackend me cfg => exact { hrefl with backends := Table.rows_subset_step _ _ _ _ _ }

theorem Serves.mono (h : t.Serves lookup p) (hgrows : t.Grows t') : t'.Serves lookup p := by
  cases lookup with
  | getHost name => exact Table.Serves.mono h hgrows.hosts
  | getService hostId service => exact Table.Serves.mono h hgrows.services
  | getServiceType type => exact Table.Serves.mono h hgrows.types
  | getBackend me cfg => exact Table.Serves.mono h hgrows.backends

theorem Serves.exec (h : t.Serves lookup p) :
    (t.exec gap lookup p).1.Serves lookup (t.exec gap lookup p).2 := by
  cases lookup with
  | getHost name => exact Table.Serves.step gap (fun _ hfound => hfound) h
  | getService hostId service => exact Table.Serves.step gap (fun _ hfound => hfound) h
  | getServiceType type => exact Table.Serves.step gap (fun _ hfound => hfound) h
  | getBackend me cfg => exact Table.Serves.step gap (fun _ hfound => hfound) h

theorem left_exec (t : NameTables col) (gap : ℕ) (lookup : Lookup) (p : Point) :
    (t.exec gap lookup p).2.left ≤ p.left - 1 := by
  cases lookup <;> exact Table.left_step _ _ _ _ _

theorem countRows_le_one (t : NameTables col) (lookup : Lookup) : t.countRows lookup ≤ 1 := by
  cases lookup with
  | getHost name => exact t.hosts.countP_found_le_one name
  | getService hostId service => exact t.services.countP_found_le_one (hostId, service)
  | getServiceType type => exact t.types.countP_found_le_one type
  | getBackend me cfg => exact t.backends.countP_found_le_one (me, cfg)

section returned

variable {id id' : ℕ} {other : Lookup}

theorem Serves.id_ne_zero (h : t.Serves lookup (.returned id)) : id ≠ 0 := by
  cases lookup with
  | getHost name => exact Table.Serves.id_ne_zero (t := t.hosts) h
  | getService hostId service => exact Table.Serves.id_ne_zero (t := t.services) h
  | getServiceType type => exact Table.Serves.id_ne_zero (t := t.types) h
  | getBackend me cfg => exact Table.Serves.id_ne_zero (t := t.backends) h

theorem Serves.countRows_eq_one (h : t.Serves lookup (.returned id)) : t.countRows lookup = 1 := by
  cases lookup with
  | getHost name =>
      obtain ⟨row, hrow, hfound, -⟩ := h
      exact Table.countP_found_eq_one ⟨row, hrow, hfound⟩
  | getService hostId service =>
      obtain ⟨row, hrow, hfound, -⟩ := h
      exact Table.countP_found_eq_one ⟨row, hrow, hfound⟩
  | getServiceType type =>
      obtain ⟨row, hrow, hfound, -⟩ := h
      exact Table.countP_found_eq_one ⟨row, hrow, hfound⟩
  | getBackend me cfg =>
      obtain ⟨row, hrow, hfound, -⟩ := h
      exact Table.countP_found_eq_one ⟨row, hrow, hfound⟩

/-- Two calls on one table return one id exactly if their keys are the same. -/
theorem Serves.id_eq_iff (h : t.Serves lookup (.returned id)) (h' : t.Serves other (.returned id'))
    (htable : lookup.table = other.table) : id = id' ↔ lookup.same col other = true := by
  cases lookup <;> cases other <;> first
    | exact Table.Serves.id_eq_iff h h'
    | cases htable

end returned

end NameTables

namespace Lookups

variable {s : Lookups col} {n : ℕ}

/-- Every call has what it relies on. -/
def Served (s : Lookups col) : Prop := ∀ n c p, s.calls n = some (c, p) → s.tables.Serves c p

theorem served_start (t : NameTables col) : (start t).Served := by
  intro n c p h
  cases h

theorem Served.move (h : s.Served) (move : LookupMove) : (s.move move).Served := by
  cases move with
  | call n lookup =>
      simp only [Lookups.move]
      split
      · intro m c p hm
        by_cases hmn : m = n
        · rw [hmn] at hm
          simp only [Function.update_self, Option.some.injEq, Prod.mk.injEq] at hm
          obtain ⟨rfl, rfl⟩ := hm
          cases lookup <;> trivial
        · simp only [Function.update_of_ne hmn] at hm
          exact h m c p hm
      · exact h
  | step n gap =>
      simp only [Lookups.move]
      split
      · exact h
      · next lookup p hcall =>
        intro m c q hm
        by_cases hmn : m = n
        · rw [hmn] at hm
          simp only [Function.update_self, Option.some.injEq, Prod.mk.injEq] at hm
          obtain ⟨rfl, rfl⟩ := hm
          exact (h n lookup p hcall).exec
        · simp only [Function.update_of_ne hmn] at hm
          exact (h m c q hm).mono (s.tables.exec_grows gap lookup p)

theorem Served.run (h : s.Served) (moves : List LookupMove) : (s.run moves).Served := by
  induction moves generalizing s with
  | nil => exact h
  | cons move moves ih => exact ih (h.move move)

/-! ### Every call returns -/

theorem step_left {c : Lookup} {p : Point} (h : s.calls n = some (c, p)) (gap : ℕ) :
    ∃ q, (s.move (.step n gap)).calls n = some (c, q) ∧ q.left ≤ p.left - 1 := by
  refine ⟨(s.tables.exec gap c p).2, ?_, s.tables.left_exec gap c p⟩
  simp only [Lookups.move, h, Function.update_self]

theorem returned_of_left {p : Point} (h : p.left = 0) : ∃ id, p = .returned id := by
  cases p with
  | returned id => exact ⟨id, rfl⟩
  | _ => cases h

/-- A call sends three statements at most. -/
theorem returns {c : Lookup} {p : Point} (h : s.calls n = some (c, p)) (gap₁ gap₂ gap₃ : ℕ) :
    ∃ id, (s.run [.step n gap₁, .step n gap₂, .step n gap₃]).calls n =
      some (c, .returned id) := by
  obtain ⟨p₁, h₁, hleft₁⟩ := step_left h gap₁
  obtain ⟨p₂, h₂, hleft₂⟩ := step_left h₁ gap₂
  obtain ⟨p₃, h₃, hleft₃⟩ := step_left h₂ gap₃
  have hleft : p.left ≤ 3 := by
    cases p <;> simp [Point.left]
  obtain ⟨id, rfl⟩ := returned_of_left (p := p₃) (by omega)
  exact ⟨id, h₃⟩

end Lookups

/-! ### Without interruption -/

section uninterrupted

variable (t : NameTables col) (gap₁ gap₂ gap₃ : ℕ)

/-- The three statements of a call in a row. -/
def NameTables.exec3 (lookup : Lookup) : NameTables col × Point :=
  let r₁ := t.exec gap₁ lookup .count
  let r₂ := r₁.1.exec gap₂ lookup r₁.2
  r₂.1.exec gap₃ lookup r₂.2

/-- Uninterrupted, a call is the lookup in one step. -/
theorem getHost_uninterrupted (name : String) :
    let r := t.exec3 gap₁ gap₂ gap₃ (.getHost name)
    let host := getHost col name (t.hosts.autoIncrement gap₂) t.hosts.rows
    r.1.hosts.rows = host.1 ∧ r.2 = .returned host.2 :=
  t.hosts.uninterrupted name (fun _ hfound => hfound) gap₁ gap₂ gap₃

theorem getServiceType_uninterrupted (type : String) :
    let r := t.exec3 gap₁ gap₂ gap₃ (.getServiceType type)
    let types := getServiceType col type (t.types.autoIncrement gap₂) t.types.rows
    r.1.types.rows = types.1 ∧ r.2 = .returned types.2 :=
  t.types.uninterrupted type (fun _ hfound => hfound) gap₁ gap₂ gap₃

theorem getService_uninterrupted (hostId : ℕ) (service : String) :
    let r := t.exec3 gap₁ gap₂ gap₃ (.getService hostId service)
    let services := getService col hostId service (t.services.autoIncrement gap₂) t.services.rows
    r.1.services.rows = services.1 ∧ r.2 = .returned services.2 :=
  t.services.uninterrupted (hostId, service) (fun _ hfound => hfound) gap₁ gap₂ gap₃

end uninterrupted

/-- After any moves of any calls: no key has two rows, every call returns after three statements
of its own at most, what it returns is not zero and the only row of its key is then in the table,
and of two calls on one table the ids are equal exactly if the keys are the same. -/
theorem one_id_per_name (t : NameTables col) (moves : List LookupMove) :
    let s := (Lookups.start t).run moves
    (∀ c, s.tables.countRows c ≤ 1) ∧
    (∀ n c p, s.calls n = some (c, p) → ∀ gap₁ gap₂ gap₃, ∃ id,
      (s.run [.step n gap₁, .step n gap₂, .step n gap₃]).calls n = some (c, .returned id)) ∧
    (∀ n c id, s.calls n = some (c, .returned id) → id ≠ 0 ∧ s.tables.countRows c = 1) ∧
    ∀ n m c d id id', s.calls n = some (c, .returned id) → s.calls m = some (d, .returned id') →
      c.table = d.table → (id = id' ↔ c.same col d = true) := by
  intro s
  have hserved : s.Served := (Lookups.served_start t).run moves
  refine ⟨s.tables.countRows_le_one, ?_, ?_, ?_⟩
  · intro n c p h gap₁ gap₂ gap₃
    exact Lookups.returns h gap₁ gap₂ gap₃
  · intro n c id h
    have hcall := hserved n c _ h
    exact ⟨hcall.id_ne_zero, hcall.countRows_eq_one⟩
  · intro n m c d id id' hn hm htable
    exact (hserved n c _ hn).id_eq_iff (hserved m d _ hm) htable

/-- Two calls ask for the host `web` at once: both count none, and both insert it. -/
def webTwice : List LookupMove :=
  [.call 0 (.getHost "web"), .call 1 (.getHost "web"), .step 0 0, .step 1 0, .step 0 0, .step 1 0,
    .step 0 0, .step 1 0]

theorem one_id_for_web :
    let s := (Lookups.start (.noNames .binary)).run webTwice
    s.calls 0 = some (.getHost "web", .returned 1) ∧
      s.calls 1 = some (.getHost "web", .returned 1) ∧
        s.tables.countRows (.getHost "web") = 1 := by
  intro s
  have hfirst : s.calls 0 = some (.getHost "web", .returned 1) := by
    decide +kernel
  have hsecond : s.calls 1 = some (.getHost "web", .returned 1) := by
    decide +kernel
  obtain ⟨-, -, hrow, -⟩ := one_id_per_name (.noNames .binary) webTwice
  exact ⟨hfirst, hsecond, (hrow 0 _ 1 hfirst).2⟩

end WatchedBack
