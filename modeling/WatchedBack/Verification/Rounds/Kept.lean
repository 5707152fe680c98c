import WatchedBack.Verification.Lookups
import WatchedBack.Verification.Rounds.Uninterrupted

/-! # What the steps of a round keep

No step takes a service, a component or a history row away. -/

namespace WatchedBack

open Fallible Growth

namespace ServiceTables

section states

variable (t : ServiceTables)

/-- The service under a name of a host. -/
def findService (col : Collation) (name : String × String) : Option ℕ :=
  (t.hosts.find? fun row => col.same row.name name.1).bind fun host =>
    (t.services.find? fun row => row.hostId = host.id ∧ col.same row.name name.2).map ServiceRow.id

/-- The service has stored processes or sockets. -/
def Stored (servId : ℕ) : Prop :=
  (∃ row ∈ t.process, row.servId = servId) ∨ ∃ row ∈ t.sockets, row.servId = servId

/-- The service has a history row from the time on. -/
def SeenSince (servId : ℕ) (timestamp : ℚ) : Prop :=
  ∃ row ∈ t.history, row.servId = servId ∧ timestamp ≤ row.timestamp

/-- What is found, stored or seen in the first tables is so in the second. -/
structure Later (col : Collation) (t t' : ServiceTables) : Prop where
  found : ∀ name servId, t.findService col name = some servId →
    t'.findService col name = some servId
  stored : ∀ servId, t.Stored servId → t'.Stored servId
  seen : ∀ servId timestamp, t.SeenSince servId timestamp → t'.SeenSince servId timestamp

end states

variable {col : Collation} {t t' t'' : ServiceTables}

namespace Later

@[refl] theorem refl (t : ServiceTables) : t.Later col t :=
  ⟨fun _ _ h => h, fun _ h => h, fun _ _ h => h⟩

@[trans] theorem trans (h : t.Later col t') (h' : t'.Later col t'') : t.Later col t'' :=
  ⟨fun name servId hf => h'.found name servId (h.found name servId hf),
    fun servId hs => h'.stored servId (h.stored servId hs),
    fun servId timestamp hs => h'.seen servId timestamp (h.seen servId timestamp hs)⟩

end Later

/-! ### Statements -/

section statements

variable {α : Type} {sameKey : α → Bool} {change : α → α} {row : α} {rows : List α} {P : α → Prop}

/-- An upsert keeps a row of a kind that its change keeps. -/
theorem exists_mem_upsert (hchange : ∀ r, P r → P (change r)) (h : ∃ r ∈ rows, P r) :
    ∃ r ∈ upsert sameKey change row rows, P r := by
  obtain ⟨r, hr, hP⟩ := h
  rw [upsert]
  split
  · apply Exists.intro (if sameKey r then change r else r)
    apply And.intro (List.mem_map_of_mem hr)
    split
    · exact hchange r hP
    · exact hP
  · exact ⟨r, List.mem_append_left _ hr, hP⟩

/-- After an upsert there is a row of its kind. -/
theorem exists_mem_upsert_self (hkey : ∀ r, sameKey r = true → P (change r)) (hrow : P row) :
    ∃ r ∈ upsert sameKey change row rows, P r := by
  rw [upsert]
  split
  · next hany =>
    obtain ⟨r, hr, hsame⟩ := List.any_eq_true.mp hany
    apply Exists.intro (change r)
    refine ⟨?_, hkey r hsame⟩
    have hmem := List.mem_map_of_mem (f := fun r => if sameKey r then change r else r) hr
    simpa only [hsame, if_true] using hmem
  · exact ⟨row, List.mem_append_right _ (List.mem_singleton_self row), hrow⟩

end statements

theorem later_insertLog (t : ServiceTables) (row : LogRow) : t.Later col (t.insertLog col row) :=
  ⟨fun _ _ h => h, fun _ h => h, fun _ _ h => h⟩

theorem later_insertProcess (t : ServiceTables) (row : ProcessRow) :
    t.Later col (t.insertProcess col row) := by
  refine ⟨fun _ _ h => h, fun servId h => ?_, fun _ _ h => h⟩
  cases h with
  | inl hprocess => exact Or.inl (exists_mem_upsert (fun r hr => hr) hprocess)
  | inr hsocket => exact Or.inr hsocket

theorem later_insertSocket (t : ServiceTables) (row : SocketRow) :
    t.Later col (t.insertSocket col row) := by
  refine ⟨fun _ _ h => h, fun servId h => ?_, fun _ _ h => h⟩
  cases h with
  | inl hprocess => exact Or.inl hprocess
  | inr hsocket => exact Or.inr (exists_mem_upsert (fun r hr => hr) hsocket)

theorem later_insertHistory (t : ServiceTables) (row : HistoryRow) :
    t.Later col (t.insertHistory row) :=
  ⟨fun _ _ h => h, fun _ h => h, fun _ _ h => exists_mem_upsert (fun _ hr => hr) h⟩

theorem later_insertMissing (t : ServiceTables) (hostId : ℕ) (timestamp : ℚ) :
    t.Later col (t.insertMissing hostId timestamp) := by
  refine ⟨fun _ _ h => h, fun _ h => h, fun servId since h => ?_⟩
  obtain ⟨row, hrow, hseen⟩ := h
  exact ⟨row, List.mem_append_left _ hrow, hseen⟩

theorem later_updateType (t : ServiceTables) (servId typeId : ℕ) :
    t.Later col (t.updateType servId typeId) := by
  refine ⟨fun name id h => ?_, fun _ h => h, fun _ _ h => h⟩
  obtain ⟨host, hhost, hservice⟩ := Option.bind_eq_some_iff.mp h
  obtain ⟨row, hrow, rfl⟩ := Option.map_eq_some_iff.mp hservice
  apply Option.bind_eq_some_iff.mpr
  refine ⟨host, hhost, ?_⟩
  -- the change of a row is not seen by the search
  have hsame : ((fun row : ServiceRow => decide (row.hostId = host.id ∧ col.same row.name name.2)) ∘
      fun r : ServiceRow => if r.id = servId then { r with typeId := some typeId } else r) =
      fun row => decide (row.hostId = host.id ∧ col.same row.name name.2) := by
    funext r
    by_cases hid : r.id = servId
    · simp only [Function.comp_apply, hid, if_true]
    · simp only [Function.comp_apply, hid, if_false]
  simp only [updateType, List.find?_map, hsame, hrow, Option.map_some]
  split
  · rfl
  · rfl

/-- The services grow, and so do the hosts. -/
theorem later_of_grows (hhosts : Grows NameRow.id t.hosts t'.hosts)
    (hservices : Grows ServiceRow.id t.services t'.services) (hprocess : t'.process = t.process)
    (hsockets : t'.sockets = t.sockets) (hhistory : t'.history = t.history) : t.Later col t' := by
  refine ⟨fun name servId h => ?_, fun servId h => ?_, fun servId since h => ?_⟩
  · obtain ⟨host, hhost, hservice⟩ := Option.bind_eq_some_iff.mp h
    obtain ⟨row, hrow, rfl⟩ := Option.map_eq_some_iff.mp hservice
    apply Option.bind_eq_some_iff.mpr
    refine ⟨host, hhosts.find?_eq_some hhost, ?_⟩
    rw [hservices.find?_eq_some hrow]
    rfl
  · rw [Stored, hprocess, hsockets]
    exact h
  · rw [SeenSince, hhistory]
    exact h

theorem seenSince_insertHistory (t : ServiceTables) (row : HistoryRow) :
    (t.insertHistory row).SeenSince row.servId row.timestamp := by
  apply exists_mem_upsert_self
  · intro r hr
    obtain ⟨hserv, htime⟩ := of_decide_eq_true hr
    exact ⟨hserv, htime.ge⟩
  · exact ⟨rfl, le_refl _⟩

end ServiceTables

/-! ### Steps -/

section steps

variable {col : Collation} {carried : ℕ → Bool} {fp : ℚ} {l : Locals} {t : ServiceTables}
  {m : Locals × ServiceTables}

theorem later_exec {r : Round} {stmt : ServiceTables → ServiceTables}
    (h : r.tables.Later col (stmt r.tables)) : r.tables.Later col (r.exec carried stmt).tables := by
  rw [Round.exec]
  dsimp only
  split
  · exact h
  · exact .refl _

theorem later_ofRound {stmt : ServiceTables → ServiceTables} (h : t.Later col (stmt t)) :
    t.Later col (l.ofRound ((l.round t).exec carried stmt)).2 :=
  later_exec (r := l.round t) h

theorem collectLog_later {servId : ℕ} {s s' : LogScan} {entry : Json}
    (h : collectLog col carried servId s entry = .ok s') :
    s.round.tables.Later col s'.round.tables := by
  rcases collectLog_cases h with ⟨-, rfl⟩ | ⟨-, -, level, line, row, -, rfl⟩
  · exact .refl _
  · refine ServiceTables.Later.trans ?_ (later_exec (ServiceTables.later_insertLog _ _))
    exact ServiceTables.later_of_grows (.refl _) (.refl _) rfl rfl rfl

theorem collectProcess_later {servId : ℕ} {s s' : StatusScan} {p : Json}
    (h : collectProcess col carried fp servId s p = .ok s') :
    s.round.tables.Later col s'.round.tables := by
  obtain ⟨row, hround⟩ := collectProcess_round h
  rw [hround]
  exact later_exec (ServiceTables.later_insertProcess _ _)

theorem collectSocket_later {servId : ℕ} {s s' : StatusScan} {p : Json}
    (h : collectSocket col carried fp servId s p = .ok s') :
    s.round.tables.Later col s'.round.tables := by
  obtain ⟨row, hround⟩ := collectSocket_round h
  rw [hround]
  exact later_exec (ServiceTables.later_insertSocket _ _)

theorem lookupService_spec {service : String × Json}
    (h : lookupService col service l t = .ok m) :
    t.Later col m.2 ∧ ∀ name, reportedName service = some name →
      m.2.findService col name = some m.1.servId := by
  obtain ⟨host, type, hpath, rfl⟩ := lookupService_cases h
  obtain ⟨hhosts, hhostId⟩ := getName_spec (fun row => col.same row.name host) host t.hosts
    (fun _ => col.refl host)
  obtain ⟨hservices, hservId⟩ := getService_rows col
    (getHost col host (nextId (t.hosts.map NameRow.id)) t.hosts).2 service.1 t.services
  refine ⟨ServiceTables.later_of_grows hhosts hservices rfl rfl rfl, fun name hname => ?_⟩
  rw [reportedName, hpath] at hname
  cases hname
  obtain ⟨row, hrow, hid⟩ := Option.map_eq_some_iff.mp hhostId
  apply Option.bind_eq_some_iff.mpr
  refine ⟨row, hrow, ?_⟩
  rw [hid]
  exact hservId

/-- No step takes anything away. -/
theorem Step.exec_later {step : Step} (h : step.exec col carried fp l t = .ok m) :
    t.Later col m.2 := by
  cases step with
  | lookup service => exact (lookupService_spec h).1
  | log entry =>
      obtain ⟨s, hs, h⟩ := bind_eq_ok.mp h
      cases h
      exact collectLog_later hs
  | sendLog =>
      cases h
      exact .refl _
  | process p =>
      obtain ⟨s, hs, h⟩ := bind_eq_ok.mp h
      cases h
      exact collectProcess_later hs
  | socket p =>
      obtain ⟨s, hs, h⟩ := bind_eq_ok.mp h
      cases h
      exact collectSocket_later hs
  | sendService service =>
      rcases Step.exec_sendService h with rfl | ⟨host, rfl⟩
      · exact .refl _
      · exact .refl _
  | updateType =>
      cases h
      exact later_ofRound (ServiceTables.later_updateType _ _ _)
  | history =>
      cases h
      exact later_ofRound (ServiceTables.later_insertHistory _ _)
  | known =>
      cases h
      exact .refl _
  | missing =>
      rcases Step.exec_missing h with rfl | ⟨hostId, hosts, rfl⟩
      · exact .refl _
      · exact later_ofRound (ServiceTables.later_insertMissing _ _ _)

/-- Only a lookup changes the service. -/
theorem Step.exec_servId {step : Step} (hstep : ∀ service, step ≠ .lookup service)
    (h : step.exec col carried fp l t = .ok m) : m.1.servId = l.servId := by
  cases step with
  | lookup service => exact absurd rfl (hstep service)
  | log entry | process entry | socket entry =>
      obtain ⟨s, hs, h⟩ := bind_eq_ok.mp h
      cases h
      rfl
  | sendLog | updateType | history | known =>
      cases h
      rfl
  | sendService service =>
      rcases Step.exec_sendService h with rfl | ⟨host, rfl⟩
      · rfl
      · rfl
  | missing =>
      rcases Step.exec_missing h with rfl | ⟨hostId, hosts, rfl⟩
      · rfl
      · rfl

/-- The history of a service is there once its statement is carried out. -/
theorem Step.exec_history (h : Step.history.exec col (fun _ => true) fp l t = .ok m) :
    m.2.SeenSince l.servId fp := by
  cases h
  exact ServiceTables.seenSince_insertHistory t _

end steps

end WatchedBack
