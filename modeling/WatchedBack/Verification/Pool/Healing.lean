import WatchedBack.Library.Fallible
import WatchedBack.Model.Threads
import WatchedBack.Verification.Pool.Startup

/-! # What heals after a failure

An agent is initialised only when it is put into the map, and a thread is started only while
`active` is not set. -/

namespace WatchedBack

open Fallible

namespace InitAnswer

/-- Every database operation of the `init` succeeds. -/
def Succeeds (answer : InitAnswer) : Prop := answer.grab = .connection ∧ answer.row = .row

/-- The `init` gets as far as setting `ready`. -/
def Readies (answer : InitAnswer) : Prop := answer.grab = .connection ∧ answer.row ≠ .failed

/-- An exception leaves the `init`. -/
def raises (answer : InitAnswer) : Bool :=
  answer.grab = .threw ∨ answer.grab = .connection ∧ answer.row ≠ .failed ∧ answer.api = .threw

variable {answer : InitAnswer}

theorem Succeeds.readies (h : answer.Succeeds) : answer.Readies := by
  simp [Readies, h.1, h.2]

/-- What an `init` that does not crash comes to. -/
theorem init_spec {a : AgentFlags} {raised : Bool} (h : AgentFlags.init answer = .ok (a, raised)) :
    a.active = false ∧ (a.ready = true ↔ answer.Readies) ∧ raised = answer.raises := by
  unfold AgentFlags.init at h
  split at h
  · next hgrab =>
    cases h
    simp [AgentFlags.new, Readies, raises, hgrab]
  · next hgrab =>
    cases h
    simp [AgentFlags.new, Readies, raises, hgrab]
  · next hgrab =>
    split at h
    · next hrow =>
      cases h
      simp [AgentFlags.new, Readies, raises, hgrab, hrow]
    · cases h
    · next hrow =>
      cases h
      simp [AgentFlags.new, Readies, raises, hgrab, hrow]
    · next hrow =>
      cases h
      simp [AgentFlags.new, Readies, raises, hgrab, hrow]

theorem Succeeds.init (h : answer.Succeeds) :
    AgentFlags.init answer = .ok ({ AgentFlags.new with ready := true }, answer.api = .threw) := by
  simp only [AgentFlags.init, h.1, h.2]

end InitAnswer

/-- What an `init` meets, without the connections that it drops. -/
def AgentAnswer.forget (answer : AgentAnswer) : InitAnswer :=
  ⟨if answer.grab.throws then .threw else .connection, answer.row, answer.api⟩

theorem init_of_agentInit {poolSize id : ℕ} {p q : Pool Holder} {answer : AgentAnswer}
    {raised : Bool} (h : agentInit poolSize p id answer = some (q, raised)) :
    ∃ a, AgentFlags.init answer.forget = .ok (a, raised) := by
  obtain ⟨m, -, h⟩ := Option.bind_eq_some_iff.mp h
  cases hthrows : answer.grab.throws with
  | true =>
      simp only [hthrows, if_true] at h
      cases h
      exact ⟨.new, by simp [AgentAnswer.forget, AgentFlags.init, hthrows]⟩
  | false =>
      have hraised : ∀ api, (agentUpdateApi m id api).2 = decide (api = .threw) := by
        intro api
        cases api <;> rfl
      have hapi := hraised answer.api
      simp only [hthrows, Bool.false_eq_true, if_false] at h
      cases hrow : answer.row with
      | failed =>
          rw [hrow] at h
          cases h
          exact ⟨.new, by simp [AgentAnswer.forget, AgentFlags.init, hthrows, hrow]⟩
      | empty =>
          rw [hrow] at h
          cases h
      | threw =>
          rw [hrow] at h
          rw [Option.some.inj h] at hapi
          refine ⟨{ AgentFlags.new with ready := true }, ?_⟩
          simp [AgentAnswer.forget, AgentFlags.init, hthrows, hrow, ← hapi]
      | row =>
          rw [hrow] at h
          rw [Option.some.inj h] at hapi
          refine ⟨{ AgentFlags.new with ready := true }, ?_⟩
          simp [AgentAnswer.forget, AgentFlags.init, hthrows, hrow, ← hapi]

namespace AgentManager

variable {m m' : AgentManager} {agents agents' : ℕ → Option AgentFlags}
  {rows : List (ℕ × InitAnswer)} {id : ℕ} {a : AgentFlags}

/-- The agents of a query are ready, and their threads and the aggregator's run. -/
structure Healthy (m : AgentManager) (ids : List ℕ) : Prop where
  agents : ∀ id ∈ ids, ∃ a, m.agents id = some a ∧ a.ready = true ∧ a.running = true
  aggreg : m.aggreg.running = true

/-- An object whose flag is set has a running thread. -/
structure ActiveRuns (m : AgentManager) : Prop where
  agents : ∀ id a, m.agents id = some a → a.active = true → a.running = true
  aggreg : m.aggreg.active = true → m.aggreg.running = true

/-- No new agent whose API raises an exception stands before another new agent. -/
def Uncut (agents : ℕ → Option AgentFlags) (rows : List (ℕ × InitAnswer)) : Prop :=
  rows.Pairwise fun r r' => agents r.1 = none → r.2.api = .threw → (agents r'.1).isSome = true

/-- Active objects run, and a round in which every database operation succeeds leaves all agents
of its query healthy, unless an exception keeps it from creating some of them. -/
structure Heals (m : AgentManager) : Prop where
  active : m.ActiveRuns
  round : ∀ rows : List (ℕ × InitAnswer), (rows.map Prod.fst).Nodup → (∀ r ∈ rows, r.2.Succeeds) →
    ∃ m', m.round ⟨.connection, some rows⟩ = .ok m' ∧
      (m'.Healthy (rows.map Prod.fst) ↔ Uncut m.agents rows)

/-- The agents that the loop creates. -/
def inited (known : ℕ → Bool) : List (ℕ × InitAnswer) → List (ℕ × InitAnswer)
  | [] => []
  | (id, answer) :: rows =>
      if known id then inited known rows
      else if answer.raises then [(id, answer)]
      else (id, answer) :: inited (Function.update known id true) rows

def known (agents : ℕ → Option AgentFlags) (id : ℕ) : Bool := (agents id).isSome

/-- A round gets every agent ready that it creates, and a pass gets a connection. -/
def Spared (m : AgentManager) : ManagerEvent → Prop
  | .round answer => answer.grab = .connection → ∀ rows, answer.rows = some rows →
      ∀ r ∈ inited (known m.agents) rows, r.2.Readies
  | .pass grab => m.aggreg.running = true → grab = .connection

/-! ### The loop over the agents -/

theorem known_update (agents : ℕ → Option AgentFlags) (id : ℕ) (a : AgentFlags) :
    known (Function.update agents id (some a)) = Function.update (known agents) id true := by
  funext other
  by_cases h : other = id
  · simp [known, h]
  · simp [known, Function.update_of_ne h]

/-- What the loop does to the map. -/
structure Started (agents : ℕ → Option AgentFlags) (rows : List (ℕ × InitAnswer))
    (agents' : ℕ → Option AgentFlags) : Prop where
  kept : ∀ id a, agents id = some a → agents' id = some a
  old_or_new : ∀ id a, agents' id = some a → agents id = some a ∨
    ∃ answer, (id, answer) ∈ inited (known agents) rows ∧ a.active = false ∧
      (a.ready = true ↔ answer.Readies)
  created : ∀ r ∈ inited (known agents) rows, ∃ a, agents' r.1 = some a ∧
    (a.ready = true ↔ r.2.Readies)

theorem inited_subset {known : ℕ → Bool} : inited known rows ⊆ rows := by
  induction rows generalizing known with
  | nil => exact List.Subset.refl _
  | cons r rows ih =>
      rw [inited]
      split
      · exact List.subset_cons_of_subset _ ih
      · split
        · exact List.cons_subset_cons _ (List.nil_subset _)
        · exact List.cons_subset_cons _ ih

theorem started_refl {agents : ℕ → Option AgentFlags} (h : inited (known agents) rows = []) :
    Started agents rows agents := by
  refine ⟨fun _ _ ha => ha, fun _ _ ha => Or.inl ha, ?_⟩
  rw [h]
  exact nofun

/-- A new agent, and the loop over the rest of the rows if no exception ends it. -/
theorem Started.cons {answer : InitAnswer} {a : AgentFlags} {rest rows : List (ℕ × InitAnswer)}
    (hnew : agents id = none) (hactive : a.active = false) (hready : a.ready = true ↔ answer.Readies)
    (hinited : inited (known agents) rows =
      (id, answer) :: inited (known (Function.update agents id (some a))) rest)
    (h : Started (Function.update agents id (some a)) rest agents') : Started agents rows agents' := by
  have hown : agents' id = some a := h.kept id a (Function.update_self ..)
  refine ⟨?_, ?_, ?_⟩
  · intro other b hb
    have hne : other ≠ id := by
      rintro rfl
      cases hnew.symm.trans hb
    exact h.kept other b (by rw [Function.update_of_ne hne, hb])
  · intro other b hb
    rw [hinited]
    by_cases hne : other = id
    · subst hne
      obtain rfl : a = b := Option.some.inj (hown.symm.trans hb)
      exact Or.inr ⟨answer, List.mem_cons_self, hactive, hready⟩
    · rcases h.old_or_new other b hb with hold | ⟨answer', hmem, hrest⟩
      · rw [Function.update_of_ne hne] at hold
        exact Or.inl hold
      · exact Or.inr ⟨answer', List.mem_cons_of_mem _ hmem, hrest⟩
  · rw [hinited]
    exact List.forall_mem_cons.mpr ⟨⟨a, hown, hready⟩, h.created⟩

theorem startClients_started (h : startClients agents rows = .ok agents') :
    Started agents rows agents' := by
  induction rows generalizing agents with
  | nil =>
      cases h
      exact started_refl rfl
  | cons r rows ih =>
      obtain ⟨id, answer⟩ := r
      rw [startClients] at h
      split at h
      · next hknown =>
        have hskip : inited (known agents) ((id, answer) :: rows) = inited (known agents) rows := by
          simp [inited, known, hknown]
        obtain ⟨hkept, hold, hcreated⟩ := ih h
        rw [← hskip] at hold hcreated
        exact ⟨hkept, hold, hcreated⟩
      · next hnew =>
        have hnone : agents id = none := by simpa using hnew
        obtain ⟨⟨a, raised⟩, hinit, h⟩ := bind_eq_ok.mp h
        obtain ⟨hactive, hready, hraised⟩ := InitAnswer.init_spec hinit
        dsimp only at h
        split at h
        · next hraise =>
          cases h
          have hinited : inited (known agents) ((id, answer) :: rows) =
              (id, answer) :: inited (known (Function.update agents id (some a))) [] := by
            simp [inited, known, hnone, ← hraised, hraise]
          exact .cons hnone hactive hready hinited (started_refl rfl)
        · next hraise =>
          have hinited : inited (known agents) ((id, answer) :: rows) =
              (id, answer) :: inited (known (Function.update agents id (some a))) rows := by
            rw [known_update]
            simp [inited, known, hnone, ← hraised, hraise]
          exact .cons hnone hactive hready hinited (ih h)

/-- The loop puts the agents into the map that it creates when its connections are counted. -/
theorem startClients_of_startAgents {poolSize : ℕ} {p q : Pool Holder} {ids ids' : List ℕ}
    {rows : List (ℕ × AgentAnswer)} (hknown : ∀ id, (agents id).isSome = true ↔ id ∈ ids)
    (h : startAgents poolSize p ids rows = some (q, ids')) :
    ∃ agents', startClients agents (rows.map fun r => (r.1, r.2.forget)) = .ok agents' ∧
      ∀ id, (agents' id).isSome = true ↔ id ∈ ids' := by
  induction rows generalizing p ids agents with
  | nil =>
      cases h
      exact ⟨agents, rfl, hknown⟩
  | cons r rows ih =>
      obtain ⟨id, answer⟩ := r
      rw [startAgents] at h
      rw [List.map_cons, startClients]
      split at h
      · next hmem =>
        rw [if_pos ((hknown id).mpr hmem)]
        exact ih hknown h
      · next hmem =>
        rw [if_neg (fun hsome => hmem ((hknown id).mp hsome))]
        obtain ⟨⟨p', raised⟩, hinit, h⟩ := Option.bind_eq_some_iff.mp h
        obtain ⟨a, ha⟩ := init_of_agentInit hinit
        have hupdate : ∀ other, (Function.update agents id (some a) other).isSome = true ↔
            other ∈ ids ++ [id] := by
          intro other
          by_cases hother : other = id
          · simp [hother]
          · simp [hknown other, hother]
        rw [ha, ok_bind]
        dsimp only at h ⊢
        split at h
        · next hraised =>
          cases h
          rw [if_pos hraised]
          exact ⟨_, rfl, hupdate⟩
        · next hraised =>
          rw [if_neg hraised]
          exact ih hupdate h

theorem uncut_update_iff (hid : id ∉ rows.map Prod.fst) :
    Uncut (Function.update agents id (some a)) rows ↔ Uncut agents rows := by
  apply List.Pairwise.iff_of_mem
  intro r r' hr hr'
  have hne : r.1 ≠ id := fun heq => hid (heq ▸ List.mem_map_of_mem hr)
  have hne' : r'.1 ≠ id := fun heq => hid (heq ▸ List.mem_map_of_mem hr')
  rw [Function.update_of_ne hne, Function.update_of_ne hne']

/-- Where every operation succeeds, the agents of the rows are in the map afterwards exactly if
no exception has cut the loop. -/
theorem startClients_succeeds (agents : ℕ → Option AgentFlags) (hnodup : (rows.map Prod.fst).Nodup)
    (hok : ∀ r ∈ rows, r.2.Succeeds) :
    ∃ agents', startClients agents rows = .ok agents' ∧
      ((∀ id ∈ rows.map Prod.fst, (agents' id).isSome = true) ↔ Uncut agents rows) := by
  induction rows generalizing agents with
  | nil => exact ⟨agents, rfl, by simp [Uncut]⟩
  | cons r rows ih =>
      obtain ⟨id, answer⟩ := r
      obtain ⟨hid, hnodup⟩ : id ∉ rows.map Prod.fst ∧ (rows.map Prod.fst).Nodup :=
        List.nodup_cons.mp hnodup
      obtain ⟨hanswer, hok⟩ := List.forall_mem_cons.mp hok
      have hmem : ∀ agents' : ℕ → Option AgentFlags,
          (∀ other ∈ ((id, answer) :: rows).map Prod.fst, (agents' other).isSome = true) ↔
            (agents' id).isSome = true ∧
              ∀ other ∈ rows.map Prod.fst, (agents' other).isSome = true :=
        fun agents' => List.forall_mem_cons
      have hcut : Uncut agents ((id, answer) :: rows) ↔
          (∀ r ∈ rows, agents id = none → answer.api = .threw → (agents r.1).isSome = true) ∧
            Uncut agents rows :=
        List.pairwise_cons
      rw [startClients]
      split
      · next hknown =>
        obtain ⟨agents', hrun, hiff⟩ := ih agents hnodup hok
        refine ⟨agents', hrun, ?_⟩
        obtain ⟨a, ha⟩ := Option.isSome_iff_exists.mp hknown
        have hown : (agents' id).isSome = true := by
          rw [(startClients_started hrun).kept id a ha]
          rfl
        rw [hmem, hcut, hiff]
        exact and_congr (iff_of_true hown fun r _ hnone => by simp [hnone] at hknown) Iff.rfl
      · next hnew =>
        have hnone : agents id = none := by simpa using hnew
        rw [hanswer.init, ok_bind]
        dsimp only
        split
        · next hraise =>
          refine ⟨_, rfl, ?_⟩
          have hthrew : answer.api = .threw := of_decide_eq_true hraise
          have hsame : ∀ r ∈ rows, Function.update agents id
              (some { AgentFlags.new with ready := true }) r.1 = agents r.1 := by
            intro r hr
            apply Function.update_of_ne
            intro heq
            rw [← heq] at hid
            exact hid (List.mem_map_of_mem hr)
          rw [hmem, hcut]
          constructor
          · intro h
            have hall : ∀ r ∈ rows, (agents r.1).isSome = true := by
              intro r hr
              have hr' := h.2 r.1 (List.mem_map_of_mem hr)
              rwa [hsame r hr] at hr'
            refine ⟨fun r hr _ _ => hall r hr, ?_⟩
            apply List.pairwise_of_forall_mem_list
            exact fun r _ r' hr' _ _ => hall r' hr'
          · intro h
            refine ⟨by simp, fun other hother => ?_⟩
            obtain ⟨r, hr, rfl⟩ := List.mem_map.mp hother
            rw [hsame r hr]
            exact h.1 r hr hnone hthrew
        · next hraise =>
          obtain ⟨agents', hrun, hiff⟩ :=
            ih (Function.update agents id (some { AgentFlags.new with ready := true }))
              hnodup hok
          refine ⟨agents', hrun, ?_⟩
          have hown : (agents' id).isSome = true := by
            rw [(startClients_started hrun).kept id _ (Function.update_self ..)]
            rfl
          rw [hmem, hcut, hiff, uncut_update_iff hid]
          exact and_congr (iff_of_true hown fun r _ _ hthrew => by simp [hthrew] at hraise) Iff.rfl

/-! ### Starting threads -/

/-- Every agent in the map is ready. -/
def AllReady (m : AgentManager) : Prop := ∀ id a, m.agents id = some a → a.ready = true

theorem startThread_ready (a : AgentFlags) : a.startThread.ready = a.ready := by
  unfold AgentFlags.startThread
  split <;> rfl

theorem startThread_running (hready : a.ready = true) (hrun : a.active = true → a.running = true) :
    a.startThread.running = true := by
  cases hactive : a.active with
  | true => simp [AgentFlags.startThread, hready, hactive, hrun hactive]
  | false => simp [AgentFlags.startThread, hready, hactive]

theorem startThread_active (h : a.active = true → a.running = true) :
    a.startThread.active = true → a.startThread.running = true := by
  unfold AgentFlags.startThread
  split
  · exact h
  · exact fun _ => rfl

theorem allReady_startThreads : m.startThreads.AllReady ↔ m.AllReady := by
  constructor
  · intro h id a ha
    have hready := h id a.startThread (by simp [startThreads, ha])
    rwa [startThread_ready] at hready
  · intro h id a ha
    obtain ⟨b, hb, rfl⟩ := Option.map_eq_some_iff.mp ha
    rw [startThread_ready]
    exact h id b hb

theorem ActiveRuns.startThreads (h : m.ActiveRuns) : m.startThreads.ActiveRuns := by
  constructor
  · intro id a ha
    obtain ⟨b, hb, rfl⟩ := Option.map_eq_some_iff.mp ha
    exact startThread_active (h.agents id b hb)
  · cases hactive : m.aggreg.active with
    | true =>
        simp only [AgentManager.startThreads, AggregFlags.startThread, hactive, if_true]
        exact fun _ => h.aggreg hactive
    | false => simp [AgentManager.startThreads, AggregFlags.startThread, hactive]

theorem healthy_startThreads_iff (hactive : m.ActiveRuns) (hready : m.AllReady) (ids : List ℕ) :
    m.startThreads.Healthy ids ↔ ∀ id ∈ ids, (m.agents id).isSome = true := by
  constructor
  · intro h id hid
    obtain ⟨a, ha, -⟩ := h.agents id hid
    obtain ⟨b, hb, -⟩ := Option.map_eq_some_iff.mp ha
    rw [hb]
    rfl
  · intro h
    constructor
    · intro id hid
      obtain ⟨a, ha⟩ := Option.isSome_iff_exists.mp (h id hid)
      refine ⟨a.startThread, by simp [startThreads, ha], ?_, ?_⟩
      · rw [startThread_ready]
        exact hready id a ha
      · exact startThread_running (hready id a ha) (hactive.agents id a ha)
    · cases hagg : m.aggreg.active with
      | true => simp [startThreads, AggregFlags.startThread, hagg, hactive.aggreg hagg]
      | false => simp [startThreads, AggregFlags.startThread, hagg]

/-! ### What heals -/

theorem updateAgents_activeRuns {answer : RoundAnswer} (h : m.ActiveRuns)
    (hrun : m.updateAgents answer = .ok m') : m'.ActiveRuns := by
  unfold updateAgents at hrun
  split at hrun
  · cases hrun
  · cases hrun
    exact h
  · split at hrun
    · cases hrun
      exact h
    · obtain ⟨agents, hagents, hrun⟩ := bind_eq_ok.mp hrun
      cases hrun
      refine ⟨fun id a ha hactive => ?_, h.aggreg⟩
      rcases (startClients_started hagents).old_or_new id a ha with hold | ⟨answer, -, hnew, -⟩
      · exact h.agents id a hold hactive
      · rw [hnew] at hactive
        cases hactive

theorem updateAgents_allReady_iff {answer : RoundAnswer} (h : m.AllReady)
    (hrun : m.updateAgents answer = .ok m') : m'.AllReady ↔ m.Spared (.round answer) := by
  unfold updateAgents at hrun
  split at hrun
  · cases hrun
  · next hgrab =>
    cases hrun
    refine iff_of_true h fun hconnection => ?_
    rw [hgrab] at hconnection
    cases hconnection
  · next hgrab =>
    split at hrun
    · next hrows =>
      cases hrun
      refine iff_of_true h fun _ rows hsome => ?_
      rw [hrows] at hsome
      cases hsome
    · next rows hrows =>
      obtain ⟨agents, hagents, hrun⟩ := bind_eq_ok.mp hrun
      cases hrun
      have hstarted := startClients_started hagents
      constructor
      · intro hall _ rows' hsome r hr
        cases hrows.symm.trans hsome
        obtain ⟨a, ha, hready⟩ := hstarted.created r hr
        exact hready.mp (hall r.1 a ha)
      · intro hspared id a ha
        rcases hstarted.old_or_new id a ha with hold | ⟨answer, hmem, -, hready⟩
        · exact h id a hold
        · exact hready.mpr (hspared hgrab rows hrows _ hmem)

/-- A state heals exactly if its active objects run and its agents are ready: one that is not is
in the map, and is passed over for ever. -/
theorem heals_iff : m.Heals ↔ m.ActiveRuns ∧ m.AllReady := by
  constructor
  · intro h
    refine ⟨h.active, fun id a ha => ?_⟩
    let rows : List (ℕ × InitAnswer) := [(id, ⟨.connection, .row, .processed⟩)]
    obtain ⟨m', hrun, hiff⟩ := h.round rows (List.nodup_singleton _)
      (by simp [rows, InitAnswer.Succeeds])
    have hsame : m.round ⟨.connection, some rows⟩ = .ok m.startThreads := by
      simp [AgentManager.round, updateAgents, rows, startClients, ha]
    cases hsame.symm.trans hrun
    obtain ⟨b, hb, hready, -⟩ := (hiff.mpr (List.pairwise_singleton _ _)).agents id (by simp [rows])
    obtain rfl : a.startThread = b := by simpa [startThreads, ha] using hb
    rwa [startThread_ready] at hready
  · intro h
    refine ⟨h.1, fun rows hnodup hok => ?_⟩
    obtain ⟨agents, hagents, hiff⟩ := startClients_succeeds m.agents hnodup hok
    have hupdate : m.updateAgents ⟨.connection, some rows⟩ = .ok { m with agents := agents } := by
      simp [updateAgents, hagents]
    refine ⟨_, by rw [AgentManager.round, hupdate, ok_bind]; rfl, ?_⟩
    rw [healthy_startThreads_iff (updateAgents_activeRuns h.1 hupdate), hiff]
    apply (updateAgents_allReady_iff h.2 hupdate).mpr
    intro _ rows' hrows r hr
    cases hrows
    exact (hok r (inited_subset hr)).readies

/-- The thread of the aggregator is started by setting the flag, which nothing takes back. -/
def StartedActive (m : AgentManager) : Prop := m.aggreg.running = true → m.aggreg.active = true

theorem updateAgents_aggreg {answer : RoundAnswer} (hrun : m.updateAgents answer = .ok m') :
    m'.aggreg = m.aggreg := by
  unfold updateAgents at hrun
  split at hrun
  · cases hrun
  · cases hrun
    rfl
  · split at hrun
    · cases hrun
      rfl
    · obtain ⟨agents, -, hrun⟩ := bind_eq_ok.mp hrun
      cases hrun
      rfl

theorem StartedActive.step {event : ManagerEvent} (h : m.StartedActive)
    (hrun : m.step event = .ok m') : m'.StartedActive := by
  cases event with
  | round answer =>
      obtain ⟨updated, hupdate, hrun⟩ := bind_eq_ok.mp hrun
      cases hrun
      intro hrunning
      simp only [startThreads, AggregFlags.startThread, updateAgents_aggreg hupdate] at hrunning ⊢
      split at hrunning
      · next hactive => rw [if_pos hactive, hactive]
      · next hactive => rw [if_neg hactive]
  | pass grab =>
      obtain ⟨aggreg, haggreg, hrun⟩ := bind_eq_ok.mp hrun
      cases hrun
      unfold AggregFlags.pass at haggreg
      split at haggreg
      · cases haggreg
        exact h
      · split at haggreg
        · cases haggreg
          exact h
        · cases haggreg
          exact nofun
        · cases haggreg

theorem step_heals_iff {event : ManagerEvent} (h : m.Heals) (hstarted : m.StartedActive)
    (hrun : m.step event = .ok m') : m'.Heals ↔ m.Spared event := by
  rw [heals_iff] at h ⊢
  cases event with
  | round answer =>
      obtain ⟨updated, hupdate, hrun⟩ := bind_eq_ok.mp hrun
      cases hrun
      rw [allReady_startThreads, updateAgents_allReady_iff h.2 hupdate]
      have hactive := (updateAgents_activeRuns h.1 hupdate).startThreads
      exact and_iff_right hactive
  | pass grab =>
      obtain ⟨aggreg, haggreg, hrun⟩ := bind_eq_ok.mp hrun
      cases hrun
      have hready : AllReady { m with aggreg := aggreg } := h.2
      rw [and_iff_left hready]
      unfold AggregFlags.pass at haggreg
      split at haggreg
      · next hstopped =>
        cases haggreg
        refine iff_of_true h.1 fun hrunning => ?_
        simp [hrunning] at hstopped
      · next hrunning =>
        have hruns : m.aggreg.running = true := by simpa using hrunning
        split at haggreg
        · cases haggreg
          exact iff_of_true h.1 fun _ => rfl
        · cases haggreg
          constructor
          · intro hactive
            cases hactive.aggreg (hstarted hruns)
          · intro hspared
            cases hspared hruns
        · cases haggreg

end AgentManager

/-- Failures heal in a run if and only if each round gets the agents ready that it creates and
each pass gets a connection: then in every state the active objects run, and a round in which
every database operation succeeds leaves all agents of its query ready and running, and the
aggregator, unless an exception out of one API keeps it from creating another agent. -/
theorem failures_heal_iff (events : List ManagerEvent)
    (hrun : Succeeds (events.foldlM AgentManager.step .new)) :
    Always AgentManager.step AgentManager.Heals .new events ↔
      EachStep AgentManager.step AgentManager.Spared .new events := by
  apply always_iff_eachStep AgentManager.StartedActive
  · exact fun m event m' hstarted hstep => hstarted.step hstep
  · exact fun m event m' hstarted hheals hstep =>
      AgentManager.step_heals_iff hheals hstarted hstep
  · exact nofun
  · exact AgentManager.heals_iff.mpr ⟨⟨nofun, nofun⟩, nofun⟩
  · exact hrun

/-! ### What does not heal -/

namespace AgentManager

variable {m m' : AgentManager} {id : ℕ}

/-- An agent that its first `init` has not got ready never will be. -/
theorem never_ready {events : List ManagerEvent} (h : ∃ a, m.agents id = some a ∧ a.ready = false)
    (hrun : events.foldlM AgentManager.step m = .ok m') :
    ∃ a, m'.agents id = some a ∧ a.ready = false := by
  refine foldlM_invariant (fun m => ∃ a, m.agents id = some a ∧ a.ready = false) ?_ h hrun
  rintro m m' event - ⟨a, ha, hready⟩ hstep
  cases event with
  | round answer =>
      obtain ⟨updated, hupdate, hstep⟩ := bind_eq_ok.mp hstep
      cases hstep
      have hkept : updated.agents id = some a := by
        unfold updateAgents at hupdate
        split at hupdate
        · cases hupdate
        · cases hupdate
          exact ha
        · split at hupdate
          · cases hupdate
            exact ha
          · obtain ⟨agents, hagents, hupdate⟩ := bind_eq_ok.mp hupdate
            cases hupdate
            exact (startClients_started hagents).kept id a ha
      refine ⟨a.startThread, by simp [startThreads, hkept], ?_⟩
      rw [startThread_ready, hready]
  | pass grab =>
      obtain ⟨aggreg, -, hstep⟩ := bind_eq_ok.mp hstep
      cases hstep
      exact ⟨a, ha, hready⟩

/-- Nor is the thread of the aggregator started again once it has returned. -/
theorem never_restarted {events : List ManagerEvent} (h : m.aggreg = ⟨true, false⟩)
    (hrun : events.foldlM AgentManager.step m = .ok m') : m'.aggreg = ⟨true, false⟩ := by
  refine foldlM_invariant (fun m => m.aggreg = ⟨true, false⟩) ?_ h hrun
  rintro m m' event - haggreg hstep
  cases event with
  | round answer =>
      obtain ⟨updated, hupdate, hstep⟩ := bind_eq_ok.mp hstep
      cases hstep
      simp [startThreads, updateAgents_aggreg hupdate, haggreg, AggregFlags.startThread]
  | pass grab =>
      obtain ⟨aggreg, hpass, hstep⟩ := bind_eq_ok.mp hstep
      cases hstep
      simp only [haggreg, AggregFlags.pass, Bool.not_false, if_true] at hpass
      cases hpass
      rfl

end AgentManager

/-! ### One agent -/

/-- The agent is created and started, and the aggregator makes a pass. -/
def startedAgent : List ManagerEvent :=
  [.round ⟨.connection, some [(1, ⟨.connection, .row, .processed⟩)]⟩, .pass .connection]

theorem startedAgent_heals : Always AgentManager.step AgentManager.Heals .new startedAgent := by
  apply (failures_heal_iff startedAgent (succeeds_of_isSome rfl)).mpr
  unfold startedAgent
  refine (eachStep_cons (by rfl)).mpr ⟨?_, ?_⟩
  · intro _ rows hrows r hr
    cases hrows
    obtain rfl := List.mem_singleton.mp hr
    exact ⟨rfl, by decide⟩
  · exact eachStep_singleton.mpr fun _ => rfl

/-- The agent gets no connection in its first round, since `grab` throws, and nothing fails in the
second. -/
def stuckAgent : List ManagerEvent :=
  [.round ⟨.connection, some [(1, ⟨.threw, .row, .processed⟩)]⟩,
    .round ⟨.connection, some [(1, ⟨.connection, .row, .processed⟩)]⟩]

/-- After the second round the agent is not ready, and it never will be. -/
theorem stuck_agent_never_ready :
    ∃ m, stuckAgent.foldlM AgentManager.step .new = .ok m ∧
      m.agents 1 = some ⟨false, false, false⟩ ∧ ¬ m.Healthy [1] := by
  refine ⟨_, rfl, rfl, ?_⟩
  intro h
  obtain ⟨a, ha, hready, -⟩ := h.agents 1 (by simp)
  cases ha
  cases hready

end WatchedBack
