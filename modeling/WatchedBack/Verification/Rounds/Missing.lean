import WatchedBack.Verification.Rounds.Kept
import WatchedBack.Verification.Rounds.Uninterrupted

/-! # Missing services

A missing statement looks at the history from the time of its round on. The services of the round
are in it; those of other rounds need not be. -/

namespace WatchedBack

open Fallible Growth

/-! ### The order of the steps -/

/-- A history step comes before the next lookup. -/
def recording : List Step → Bool
  | [] => false
  | .history :: _ => true
  | .lookup _ :: _ => false
  | .known :: _ => false
  | .missing :: _ => false
  | _ :: steps => recording steps

/-- The history of each service follows its lookup, and no lookup follows a missing statement. -/
def Ordered : List Step → Prop
  | [] => True
  | .lookup _ :: steps => recording steps = true ∧ Ordered steps
  | .missing :: steps => (∀ service, .lookup service ∉ steps) ∧ Ordered steps
  | _ :: steps => Ordered steps

/-- A step between the lookup and the history of a service. -/
def Step.Inner : Step → Prop
  | .lookup _ | .history | .known | .missing => False
  | _ => True

section order

variable {step : Step} {before after steps : List Step} {service : String × Json}

theorem recording_inner (h : step.Inner) : recording (step :: steps) = recording steps := by
  cases step with
  | lookup service | history | known | missing => exact h.elim
  | log entry | process entry | socket entry | sendLog | sendService entry | updateType => rfl

theorem ordered_inner (h : step.Inner) : Ordered (step :: steps) ↔ Ordered steps := by
  cases step with
  | lookup service | history | known | missing => exact h.elim
  | log entry | process entry | socket entry | sendLog | sendService entry | updateType => rfl

theorem Ordered.tail (h : Ordered (step :: steps)) : Ordered steps := by
  cases step with
  | lookup service | missing => exact h.2
  | history | known | log entry | process entry | socket entry | sendLog | sendService entry
  | updateType => exact h

/-- What stands between a lookup and its history does not matter. -/
theorem ordered_append (hinner : ∀ s ∈ before, s.Inner) (after : List Step) :
    recording (before ++ .history :: after) = true ∧
      (Ordered (before ++ .history :: after) ↔ Ordered after) := by
  induction before with
  | nil => exact ⟨rfl, Iff.rfl⟩
  | cons s before ih =>
      obtain ⟨hs, hbefore⟩ := List.forall_mem_cons.mp hinner
      obtain ⟨hrecording, hordered⟩ := ih hbefore
      exact ⟨(recording_inner hs).trans hrecording, (ordered_inner hs).trans hordered⟩

theorem serviceSteps_eq_ok (h : serviceSteps service = .ok steps) :
    ∃ inner, (∀ s ∈ inner, s.Inner) ∧ steps = .lookup service :: (inner ++ [.history]) := by
  obtain ⟨logs, -, h⟩ := bind_eq_ok.mp h
  obtain ⟨entries, -, h⟩ := bind_eq_ok.mp h
  obtain ⟨status, -, h⟩ := bind_eq_ok.mp h
  obtain ⟨process, -, h⟩ := bind_eq_ok.mp h
  obtain ⟨status', -, h⟩ := bind_eq_ok.mp h
  obtain ⟨sockets, -, h⟩ := bind_eq_ok.mp h
  cases h
  refine ⟨entries.elements.map .log ++ .sendLog :: (process.elements.map .process ++
    (sockets.elements.map .socket ++ [.sendService service, .updateType])), ?_, by simp⟩
  intro s hs
  simp only [List.mem_append, List.mem_cons, List.mem_map, List.not_mem_nil, or_false] at hs
  rcases hs with ⟨entry, -, rfl⟩ | rfl | ⟨p, -, rfl⟩ | ⟨p, -, rfl⟩ | rfl | rfl <;> trivial

theorem ordered_service (h : serviceSteps service = .ok before) (hafter : Ordered after) :
    Ordered (before ++ after) := by
  obtain ⟨inner, hinner, rfl⟩ := serviceSteps_eq_ok h
  obtain ⟨hrecording, hordered⟩ := ordered_append hinner after
  rw [List.cons_append, List.append_assoc, List.singleton_append]
  exact ⟨hrecording, hordered.mpr hafter⟩

theorem ordered_services {services : List (String × Json)}
    (h : services.foldlM (fun steps service => return steps ++ (← serviceSteps service)) before =
      .ok steps) :
    ∃ added, steps = before ++ added ∧ (∀ service ∈ services, .lookup service ∈ added) ∧
      ∀ after, Ordered after → Ordered (added ++ after) := by
  induction services generalizing before with
  | nil =>
      cases h
      exact ⟨[], by simp, by simp, fun after hafter => hafter⟩
  | cons service services ih =>
      obtain ⟨m, hm, h⟩ := foldlM_cons_eq_ok.mp h
      obtain ⟨first, hfirst, hm⟩ := bind_eq_ok.mp hm
      cases hm
      obtain ⟨added, rfl, hlookups, hordered⟩ := ih h
      refine ⟨first ++ added, by simp, ?_, fun after hafter => ?_⟩
      · intro service' hmem
        rcases List.mem_cons.mp hmem with rfl | hmem
        · obtain ⟨inner, -, rfl⟩ := serviceSteps_eq_ok hfirst
          exact List.mem_append_left _ List.mem_cons_self
        · exact List.mem_append_right _ (hlookups service' hmem)
      · rw [List.append_assoc]
        exact ordered_service hfirst (hordered after hafter)

theorem ordered_missing (n : ℕ) : Ordered (.known :: List.replicate n .missing) := by
  induction n with
  | zero => trivial
  | succ n ih =>
      refine ⟨fun service hmem => ?_, ih⟩
      exact Step.noConfusion (List.eq_of_mem_replicate hmem)

/-- The steps of a round are in order, and look every service up. -/
theorem roundSteps_ordered {services : List (String × Json)} (h : roundSteps services = .ok steps) :
    Ordered steps ∧ ∀ service ∈ services, .lookup service ∈ steps := by
  obtain ⟨first, hfirst, h⟩ := bind_eq_ok.mp h
  cases h
  obtain ⟨added, rfl, hlookups, hordered⟩ := ordered_services hfirst
  refine ⟨hordered _ (ordered_missing _), fun service hmem => ?_⟩
  exact List.mem_append_left _ (hlookups service hmem)

end order

/-! ### The services of a round -/

/-- Each service of a round is still to be looked up, or is known, and then its history is about to
be stored or is there. -/
structure Thread.Ok (col : Collation) (t : ServiceTables) (thread : Thread) : Prop where
  ordered : Ordered thread.steps
  accounted : ∀ service ∈ thread.services, ∀ name, reportedName service = some name →
    .lookup service ∈ thread.steps ∨
      ∃ servId, t.findService col name = some servId ∧
        (servId = thread.locals.servId ∧ recording thread.steps = true ∨
          t.SeenSince servId thread.fp)

section threads

variable {col : Collation} {t t' : ServiceTables} {thread : Thread} {step : Step}
  {steps : List Step} {m : Locals × ServiceTables}

theorem Thread.Ok.later (h : thread.Ok col t) (hlater : t.Later col t') : thread.Ok col t' := by
  refine ⟨h.ordered, fun service hmem name hname => ?_⟩
  cases h.accounted service hmem name hname with
  | inl hlookup => exact Or.inl hlookup
  | inr hknown =>
      obtain ⟨servId, hfound, hseen⟩ := hknown
      exact Or.inr ⟨servId, hlater.found name servId hfound,
        hseen.imp_right (hlater.seen servId thread.fp)⟩

/-- A step of its own keeps the account of a round. -/
theorem Thread.Ok.exec (h : thread.Ok col t) (hsteps : thread.steps = step :: steps)
    (hexec : step.exec col (fun _ => true) thread.fp thread.locals t = .ok m) :
    Thread.Ok col m.2 { thread with locals := m.1, steps := steps } := by
  have hordered : Ordered (step :: steps) := hsteps ▸ h.ordered
  have hlater := Step.exec_later hexec
  refine ⟨hordered.tail, fun service hmem name hname => ?_⟩
  have haccount := h.accounted service hmem name hname
  rw [hsteps] at haccount
  rcases haccount with hlookup | ⟨servId, hfound, ⟨rfl, hrecording⟩ | hseen⟩
  · cases hlookup with
    | head =>
        -- the lookup of the service itself
        have hfound := (lookupService_spec hexec).2 name hname
        exact Or.inr ⟨m.1.servId, hfound, Or.inl ⟨rfl, hordered.1⟩⟩
    | tail _ hlookup => exact Or.inl hlookup
  · have hfound' := hlater.found name _ hfound
    by_cases hinner : step.Inner
    · have hservId : m.1.servId = thread.locals.servId := by
        apply Step.exec_servId _ hexec
        rintro service' rfl
        exact hinner
      rw [recording_inner hinner] at hrecording
      exact Or.inr ⟨_, hfound', Or.inl ⟨hservId.symm, hrecording⟩⟩
    · cases step with
      | history => exact Or.inr ⟨_, hfound', Or.inr (Step.exec_history hexec)⟩
      | lookup service' | known | missing => cases hrecording
      | log entry | process entry | socket entry | sendLog | sendService entry | updateType =>
          exact absurd trivial hinner
  · exact Or.inr ⟨servId, hlater.found name servId hfound, Or.inr (hlater.seen servId _ hseen)⟩

/-- Before a missing statement the history of every service of the round is there. -/
theorem Thread.Ok.seen (h : thread.Ok col t) (hsteps : thread.steps = .missing :: steps)
    {service : String × Json} (hmem : service ∈ thread.services) {name : String × String}
    (hname : reportedName service = some name) :
    ∃ servId, t.findService col name = some servId ∧ t.SeenSince servId thread.fp := by
  have hordered : Ordered (.missing :: steps) := hsteps ▸ h.ordered
  have haccount := h.accounted service hmem name hname
  rw [hsteps] at haccount
  rcases haccount with hlookup | ⟨servId, hfound, ⟨-, hrecording⟩ | hseen⟩
  · cases hlookup with
    | tail _ hlookup => exact absurd hlookup (hordered.1 service)
  · cases hrecording
  · exact ⟨servId, hfound, hseen⟩

end threads

/-! ### What a missing statement says -/

section missingRows

variable {t : ServiceTables} {hostId : ℕ} {timestamp : ℚ} {row : HistoryRow} {servId : ℕ}

/-- The number of stored components of a service. -/
def ServiceTables.components (t : ServiceTables) (servId : ℕ) : ℕ :=
  t.process.countP (fun r => r.servId = servId) + t.sockets.countP (fun r => r.servId = servId)

theorem ServiceTables.components_pos_iff : 0 < t.components servId ↔ t.Stored servId := by
  rw [components, Nat.add_pos_iff_pos_or_pos, List.countP_pos_iff, List.countP_pos_iff]
  simp only [decide_eq_true_eq, Stored]

theorem ServiceTables.mem_missingRows : row ∈ t.missingRows hostId timestamp ↔
    ∃ s ∈ t.services, (s.hostId = hostId ∧ ¬ t.SeenSince s.id timestamp) ∧
      ⟨s.id, timestamp, 0, t.components s.id, 0⟩ = row := by
  rw [missingRows, insertMissing]
  simp only [List.drop_left, List.mem_map, List.mem_filter, decide_eq_true_eq, SeenSince,
    List.any_eq_true, components, and_assoc]

/-- No row of the statement says missing if the history has every service with components. -/
theorem ServiceTables.missingRows_zero_iff :
    (∀ row ∈ t.missingRows hostId timestamp, row.missing = 0) ↔
      ∀ s ∈ t.services, s.hostId = hostId → t.Stored s.id → t.SeenSince s.id timestamp := by
  constructor
  · intro h s hs hhost hstored
    by_contra hunseen
    have hzero : t.components s.id = 0 :=
      h _ (mem_missingRows.mpr ⟨s, hs, ⟨hhost, hunseen⟩, rfl⟩)
    exact absurd hzero (components_pos_iff.mpr hstored).ne'
  · intro h row hrow
    obtain ⟨s, hs, ⟨hhost, hunseen⟩, rfl⟩ := mem_missingRows.mp hrow
    apply Nat.eq_zero_of_not_pos
    intro hpos
    exact hunseen (h s hs hhost (components_pos_iff.mp hpos))

end missingRows

/-! ### Runs -/

namespace Rounds

section conditions

variable (col : Collation) (r : Rounds)

/-- The names of a host and of a service are those of one service to the server. -/
def SameName (name name' : String × String) : Prop :=
  col.same name.1 name'.1 = true ∧ col.same name.2 name'.2 = true

/-- The reply of a round has all services that its agent ever reported. -/
def Complete : Move → Prop
  | .collect agent _ reply => (r.threads agent).steps = [] →
      ∀ services, reply.member "services" = .ok services → ∀ name ∈ r.reported agent,
        ∃ name' ∈ reportedNames services.entries, SameName col name name'
  | .step _ => True

/-- A row that says missing is of no service with stored processes or sockets. -/
def NoneMissing : Prop := ∀ row ∈ r.said, 0 < row.missing → ¬ r.tables.Stored row.servId

/-- The agent has reported the service. -/
def Reports (agent servId : ℕ) : Prop :=
  ∃ name ∈ r.reported agent, r.tables.findService col name = some servId

/-- When a missing statement is carried out, each service of the host that has processes or sockets
and that the agent of the statement never reported has a history row from the time of the
round on. -/
def Covers : Move → Prop
  | .collect _ _ _ => True
  | .step agent => ∀ hostId, r.nextHost agent = some hostId → ∀ s ∈ r.tables.services,
      s.hostId = hostId → r.tables.Stored s.id → ¬ r.Reports col agent s.id →
        r.tables.SeenSince s.id (r.threads agent).fp

/-- All rounds keep their accounts, and rows that say missing are of services with components. -/
structure Sound : Prop where
  threads : ∀ agent, (r.threads agent).Ok col r.tables
  reported : ∀ agent, ∀ name ∈ r.reported agent,
    ∃ name' ∈ reportedNames (r.threads agent).services, SameName col name name'
  said : ∀ row ∈ r.said, 0 < row.missing → r.tables.Stored row.servId

end conditions

variable {col : Collation} {r r' : Rounds} {agent : ℕ} {mv : Move}

theorem sound_start (t : ServiceTables) : (start t).Sound col := by
  refine ⟨fun agent => ⟨trivial, ?_⟩, fun agent name hname => ?_, fun row hrow => ?_⟩
  · intro service hmem
    exact absurd hmem List.not_mem_nil
  · exact absurd hname List.not_mem_nil
  · exact absurd hrow List.not_mem_nil

/-- What a step of an agent does. -/
theorem move_step_cases (h : r.move col (.step agent) = .ok r') :
    ((r.threads agent).steps = [] ∧ r' = r) ∨
      ∃ step steps m, (r.threads agent).steps = step :: steps ∧
        step.exec col (fun _ => true) (r.threads agent).fp (r.threads agent).locals r.tables =
          .ok m ∧
        r' = { r with
          tables := m.2
          threads := Function.update r.threads agent
            { r.threads agent with locals := m.1, steps := steps }
          said := r.said ++ r.nextMissing agent } := by
  rw [Rounds.move] at h
  dsimp only at h
  split at h
  · next hnil =>
    cases h
    exact Or.inl ⟨hnil, rfl⟩
  · next step steps hsteps =>
    obtain ⟨m, hm, h⟩ := bind_eq_ok.mp h
    cases h
    exact Or.inr ⟨step, steps, m, hsteps, hm, rfl⟩

/-- What a reply does. -/
theorem move_collect_cases {fp : ℚ} {reply : Json} (h : r.move col (.collect agent fp reply) = .ok r') :
    r' = r ∨ ∃ services steps, (r.threads agent).steps = [] ∧
      reply.member "services" = .ok services ∧ roundSteps services.entries = .ok steps ∧
      r' = { r with
        threads := Function.update r.threads agent ⟨fp, services.entries, .start, steps⟩
        reported := Function.update r.reported agent
          (r.reported agent ++ reportedNames services.entries) } := by
  rw [Rounds.move] at h
  split at h
  · next hidle =>
    obtain ⟨services, hservices, h⟩ := bind_eq_ok.mp h
    obtain ⟨steps, hsteps, h⟩ := bind_eq_ok.mp h
    cases h
    exact Or.inr ⟨services, steps, List.isEmpty_iff.mp hidle, hservices, hsteps, rfl⟩
  · cases h
    exact Or.inl rfl

theorem mem_reportedNames {services : List (String × Json)} {name : String × String} :
    name ∈ reportedNames services ↔ ∃ service ∈ services, reportedName service = some name := by
  rw [reportedNames, List.mem_filterMap]

theorem SameName.refl (name : String × String) : SameName col name name :=
  ⟨col.refl _, col.refl _⟩

/-- Names of one service find the same. -/
theorem SameName.findService {name name' : String × String} (h : SameName col name name')
    (t : ServiceTables) : t.findService col name = t.findService col name' := by
  have hsame {a b : String} (hab : col.same a b = true) (s : String) :
      col.same s a = col.same s b := by
    rw [Bool.eq_iff_iff]
    exact ⟨fun hs => col.trans hs hab, fun hs => col.trans hs (col.symm hab)⟩
  simp only [ServiceTables.findService, hsame h.1, hsame h.2]

/-- A complete reply is a round with all that its agent ever reported. -/
theorem Sound.collect {fp : ℚ} {services : List (String × Json)} {steps : List Step}
    (h : r.Sound col) (hsteps : roundSteps services = .ok steps)
    (hcomplete : ∀ name ∈ r.reported agent,
      ∃ name' ∈ reportedNames services, SameName col name name') :
    Sound col { r with
      threads := Function.update r.threads agent ⟨fp, services, .start, steps⟩
      reported := Function.update r.reported agent
        (r.reported agent ++ reportedNames services) } := by
  refine ⟨?_, fun other name hname => ?_, h.said⟩
  · apply (Function.forall_update_iff r.threads fun _ thread => thread.Ok col r.tables).mpr
    refine ⟨?_, fun other _ => h.threads other⟩
    obtain ⟨hordered, hlookups⟩ := roundSteps_ordered hsteps
    exact ⟨hordered, fun service hmem name _ => Or.inl (hlookups service hmem)⟩
  · by_cases hother : other = agent
    · subst hother
      simp only [Function.update_self] at hname ⊢
      rcases List.mem_append.mp hname with hold | hnew
      · exact hcomplete name hold
      · exact ⟨name, hnew, .refl name⟩
    · simp only [Function.update_of_ne hother] at hname ⊢
      exact h.reported other name hname

/-- A step of one round keeps the accounts of all. -/
theorem Sound.step {s : Step} {steps : List Step} {m : Locals × ServiceTables} (h : r.Sound col)
    (hsteps : (r.threads agent).steps = s :: steps)
    (hexec : s.exec col (fun _ => true) (r.threads agent).fp (r.threads agent).locals r.tables =
      .ok m) :
    Sound col { r with
      tables := m.2
      threads := Function.update r.threads agent
        { r.threads agent with locals := m.1, steps := steps }
      said := r.said ++ r.nextMissing agent } := by
  have hlater := Step.exec_later hexec
  refine ⟨?_, fun other name hname => ?_, fun row hrow hpos => ?_⟩
  · apply (Function.forall_update_iff r.threads fun _ thread => thread.Ok col m.2).mpr
    exact ⟨(h.threads agent).exec hsteps hexec, fun other _ => (h.threads other).later hlater⟩
  · have hservices : (Function.update r.threads agent
        { r.threads agent with locals := m.1, steps := steps } other).services =
        (r.threads other).services := by
      by_cases hother : other = agent
      · rw [hother, Function.update_self]
      · rw [Function.update_of_ne hother]
    rw [hservices]
    exact h.reported other name hname
  · apply hlater.stored
    rcases List.mem_append.mp hrow with hold | hnew
    · exact h.said row hold hpos
    · rw [nextMissing] at hnew
      split at hnew
      · obtain ⟨s, -, -, rfl⟩ := ServiceTables.mem_missingRows.mp hnew
        exact ServiceTables.components_pos_iff.mp hpos
      · exact absurd hnew List.not_mem_nil

/-- A move of which the reply is complete keeps the account. -/
theorem Sound.move (h : r.Sound col) (hcomplete : r.Complete col mv)
    (hmove : r.move col mv = .ok r') : r'.Sound col := by
  cases mv with
  | collect agent fp reply =>
      rcases move_collect_cases hmove with rfl | ⟨services, steps, hidle, hservices, hsteps, rfl⟩
      · exact h
      · exact h.collect hsteps (hcomplete hidle services hservices)
  | step agent =>
      rcases move_step_cases hmove with ⟨-, rfl⟩ | ⟨step, steps, m, hsteps, hexec, rfl⟩
      · exact h
      · exact h.step hsteps hexec

theorem Sound.noneMissing_iff (h : r.Sound col) :
    r.NoneMissing ↔ ∀ row ∈ r.said, row.missing = 0 := by
  constructor
  · intro hnone row hrow
    apply Nat.eq_zero_of_not_pos
    intro hpos
    exact hnone row hrow hpos (h.said row hrow hpos)
  · intro hzero row hrow hpos
    exact absurd (hzero row hrow) hpos.ne'

/-- The rows that the next step says missing. The services that the agent itself has reported are
in its round, whose history is there before its missing statements. -/
theorem Sound.nextMissing_iff (h : r.Sound col) :
    (∀ row ∈ r.nextMissing agent, row.missing = 0) ↔ r.Covers col (.step agent) := by
  cases hnext : r.nextHost agent with
  | none => simp [nextMissing, Covers, hnext]
  | some hostId =>
      have hsteps : ∃ steps, (r.threads agent).steps = .missing :: steps := by
        rw [nextHost] at hnext
        split at hnext
        · next steps _ _ hsteps _ => exact ⟨steps, hsteps⟩
        · cases hnext
      obtain ⟨steps, hsteps⟩ := hsteps
      simp only [nextMissing, hnext, ServiceTables.missingRows_zero_iff, Covers, Option.some.injEq,
        forall_eq']
      constructor
      · intro hall s hs hhost hstored _
        exact hall s hs hhost hstored
      · intro hcovers s hs hhost hstored
        by_cases hreports : r.Reports col agent s.id
        · obtain ⟨name, hname, hfound⟩ := hreports
          obtain ⟨name', hname', hsame⟩ := h.reported agent name hname
          obtain ⟨service, hmem, hservice⟩ := mem_reportedNames.mp hname'
          obtain ⟨servId, hfound', hseen⟩ := (h.threads agent).seen hsteps hmem hservice
          rw [hsame.findService, hfound'] at hfound
          cases hfound
          exact hseen
        · exact hcovers s hs hhost hstored hreports

/-- A move keeps the promise of the missing statements exactly if it meets its condition. -/
theorem move_noneMissing_iff (h : r.Sound col) (h' : r'.Sound col) (hnone : r.NoneMissing)
    (hmove : r.move col mv = .ok r') : r'.NoneMissing ↔ r.Covers col mv := by
  cases mv with
  | collect agent fp reply =>
      rcases move_collect_cases hmove with rfl | ⟨services, steps, -, -, -, rfl⟩
      · exact iff_of_true hnone trivial
      · exact iff_of_true hnone trivial
  | step agent =>
      rcases move_step_cases hmove with ⟨hnil, rfl⟩ | ⟨step, steps, m, -, -, rfl⟩
      · apply iff_of_true hnone
        intro hostId hnext
        rw [nextHost, hnil] at hnext
        cases hnext
      · rw [h'.noneMissing_iff, ← h.nextMissing_iff]
        rw [h.noneMissing_iff] at hnone
        simp only [List.forall_mem_append]
        exact and_iff_right hnone

/-- Whatever the order of the steps: if each reply has all services that its agent ever reported,
no stored service is said to be missing exactly if every missing statement finds the services of
other agents in the history. -/
theorem missing_iff_covers (t : ServiceTables) (moves : List Move)
    (hcomplete : EachStep (move col) (Complete col) (start t) moves)
    (hrun : Succeeds ((start t).run col moves)) :
    Always (move col) NoneMissing (start t) moves ↔
      EachStep (move col) (Covers col) (start t) moves := by
  apply always_iff_eachStep_of (Sound col) (Complete col)
  · intro r mv r' h hmv hmove
    exact h.move hmv hmove
  · intro r mv r' h h' hnone hmove
    exact move_noneMissing_iff h h' hnone hmove
  · exact sound_start t
  · intro row hrow
    exact absurd hrow List.not_mem_nil
  · exact hcomplete
  · exact hrun

/-- What is said stays said. -/
theorem mem_said_of_run {row : HistoryRow} {moves : List Move} (hrow : row ∈ r.said)
    (hrun : r.run col moves = .ok r') : row ∈ r'.said := by
  refine foldlM_invariant (fun r => row ∈ r.said) (fun r r' mv _ hmem hmove => ?_) hrow hrun
  cases mv with
  | collect agent fp reply =>
      rcases move_collect_cases hmove with rfl | ⟨services, steps, -, -, -, rfl⟩
      · exact hmem
      · exact hmem
  | step agent =>
      rcases move_step_cases hmove with ⟨-, rfl⟩ | ⟨step, steps, m, -, -, rfl⟩
      · exact hmem
      · exact List.mem_append_left _ hmem

/-! ### Agents that always report the same services -/

/-- The agent reports these services, and no others. -/
def Steady (names : ℕ → List (String × String)) : Move → Prop
  | .collect agent _ reply => ∀ services, reply.member "services" = .ok services →
      reportedNames services.entries = names agent
  | .step _ => True

theorem complete_of_steady {t : ServiceTables} {moves : List Move}
    (names : ℕ → List (String × String)) (h : ∀ mv ∈ moves, Steady names mv) :
    EachStep (move col) (Complete col) (start t) moves := by
  intro before mv after r hmoves hrun
  rw [hmoves] at h
  -- nothing but the names of an agent is reported before
  have hreported : ∀ agent, ∀ name ∈ r.reported agent, name ∈ names agent := by
    refine foldlM_invariant (fun r => ∀ agent, ∀ name ∈ r.reported agent, name ∈ names agent)
      (fun r r' mv hmv hold hmove => ?_) (fun agent name hname => absurd hname List.not_mem_nil)
      hrun
    have hsteady := h mv (List.mem_append_left _ hmv)
    cases mv with
    | collect agent fp reply =>
        rcases move_collect_cases hmove with rfl | ⟨services, steps, -, hservices, -, rfl⟩
        · exact hold
        · apply (Function.forall_update_iff r.reported
            fun other reported => ∀ name ∈ reported, name ∈ names other).mpr
          refine ⟨fun name hname => ?_, fun other _ => hold other⟩
          rcases List.mem_append.mp hname with hname | hname
          · exact hold agent name hname
          · exact hsteady services hservices ▸ hname
    | step agent =>
        rcases move_step_cases hmove with ⟨-, rfl⟩ | ⟨step, steps, m, -, -, rfl⟩
        · exact hold
        · exact hold
  have hsteady := h mv (List.mem_append_right _ List.mem_cons_self)
  cases mv with
  | collect agent fp reply =>
      intro _ services hservices name hname
      refine ⟨name, ?_, .refl name⟩
      rw [hsteady services hservices]
      exact hreported agent name hname
  | step agent => trivial

/-! ### Two agents on one host -/

/-- A reply with one service of the host `web`, and its process. -/
def processReply (service process : String) : Json :=
  .obj [("services", .obj [(service, .obj [
    ("logs", .obj [("host", .str "web"), ("entries", .arr [])]),
    ("status", .obj [
      ("properties", .obj [("type", .str "daemon")]),
      ("process", .arr [.obj [("name", .str process), ("full_path", .str process),
        ("cwd", .str "/"), ("username", .str "root"), ("status", .str "ok"), ("pid", .int 7)]]),
      ("sockets", .arr [])])])])]

/-- A whole round of an agent. -/
def wholeRound (agent : ℕ) (fp : ℚ) (reply : Json) : List Move :=
  .collect agent fp reply :: List.replicate 8 (.step agent)

/-- Two agents of a host, one round after the other. -/
def twoAgents (fp fp' : ℚ) : List Move :=
  wholeRound 0 fp (processReply "db" "postgres") ++ wholeRound 1 fp' (processReply "http" "nginx")

theorem complete_twoAgents (fp fp' : ℚ) :
    EachStep (move .binary) (Complete .binary) (start noServices) (twoAgents fp fp') := by
  apply complete_of_steady fun agent => [("web", if agent = 0 then "db" else "http")]
  intro mv hmv
  simp only [twoAgents, wholeRound, List.mem_append, List.mem_cons, List.mem_replicate] at hmv
  rcases hmv with (rfl | ⟨-, rfl⟩) | (rfl | ⟨-, rfl⟩)
  · intro services hservices
    cases hservices
    decide +kernel
  · trivial
  · intro services hservices
    cases hservices
    decide +kernel
  · trivial

/-- The second reply was asked for before the first. -/
theorem missing_iff_covers_twoAgents :
    EachStep (move .binary) (Covers .binary) (start noServices) (twoAgents 10 5) := by
  have heval : (((start noServices).run .binary (twoAgents 10 5)).toOption.map Rounds.said) =
      some [] := by
    decide +kernel
  obtain ⟨r, hrun, hsaid⟩ := exists_ok_of_toOption_map heval
  apply (missing_iff_covers noServices (twoAgents 10 5) (complete_twoAgents 10 5) ⟨r, hrun⟩).mp
  intro before after m hmoves hbefore row hrow
  rw [hmoves] at hrun
  obtain ⟨m', hm', hafter⟩ := foldlM_append_eq_ok.mp hrun
  rw [hbefore] at hm'
  cases hm'
  have hmem := mem_said_of_run hrow hafter
  rw [hsaid] at hmem
  exact absurd hmem List.not_mem_nil

/-- The second round is later, and the service of the first agent is said to be missing. -/
theorem other_agent_missing :
    ¬ ∀ (col : Collation) (t : ServiceTables) (moves : List Move),
      EachStep (move col) (Complete col) (start t) moves → Succeeds ((start t).run col moves) →
        Always (move col) NoneMissing (start t) moves := by
  intro h
  have heval : (((start noServices).run .binary (twoAgents 5 10)).toOption.map fun r =>
      (r.said, r.tables.process.map ProcessRow.servId)) = some ([⟨1, 10, 0, 1, 0⟩], [1, 2]) := by
    decide +kernel
  obtain ⟨r, hrun, heq⟩ := exists_ok_of_toOption_map heval
  obtain ⟨hsaid, hprocess⟩ := Prod.mk.inj heq
  have hnone : r.NoneMissing := h .binary noServices (twoAgents 5 10) (complete_twoAgents 5 10)
    ⟨r, hrun⟩ (twoAgents 5 10) [] r (List.append_nil _).symm hrun
  have hstored : r.tables.Stored 1 := by
    apply Or.inl
    have hmem : 1 ∈ r.tables.process.map ProcessRow.servId := by
      rw [hprocess]
      exact List.mem_cons_self
    exact List.mem_map.mp hmem
  exact hnone ⟨1, 10, 0, 1, 0⟩ (by rw [hsaid]; exact List.mem_singleton_self _) Nat.one_pos hstored

end Rounds

end WatchedBack
