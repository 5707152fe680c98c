import WatchedBack.Library.Runs
import WatchedBack.Model.Groups
import WatchedBack.Verification.Pool.Healing

/-! # Who polls an agent

A backend makes clients only for agents that its query selects, and keeps them as long as it
runs. -/

namespace WatchedBack

open Fallible Runs

/-! ### The flags of a client -/

namespace AgentFlags

variable {a : AgentFlags} {answer : InitAnswer} {raised : Bool}

/-- As `init` leaves a client, and as the start of its thread finds it. -/
def Ordered (a : AgentFlags) : Prop :=
  (a.active = true → a.running = true) ∧ (a.running = true → a.ready = true)

/-- After the start of its thread. -/
def Settled (a : AgentFlags) : Prop :=
  (a.active = true → a.running = true) ∧ (a.running = true ↔ a.ready = true)

theorem Settled.ordered (h : a.Settled) : a.Ordered := ⟨h.1, h.2.mp⟩

theorem init_ordered (h : AgentFlags.init answer = .ok (a, raised)) : a.Ordered := by
  unfold AgentFlags.init at h
  split at h
  · cases h
    simp [Ordered, AgentFlags.new]
  · cases h
    simp [Ordered, AgentFlags.new]
  · split at h
    · cases h
      simp [Ordered, AgentFlags.new]
    · cases h
    · cases h
      simp [Ordered, AgentFlags.new]
    · cases h
      simp [Ordered, AgentFlags.new]

theorem Ordered.startThread (h : a.Ordered) : a.startThread.Settled := by
  obtain ⟨hactive, hrunning⟩ := h
  cases hready : a.ready with
  | false =>
      have hnot : a.running = false := by
        rw [← Bool.not_eq_true]
        intro hrun
        rw [hrunning hrun] at hready
        cases hready
      have hoff : a.active = false := by
        rw [← Bool.not_eq_true]
        intro hact
        rw [hactive hact] at hnot
        cases hnot
      simp [AgentFlags.startThread, Settled, hready, hnot, hoff]
  | true =>
      cases hact : a.active with
      | false => simp [AgentFlags.startThread, Settled, hready, hact]
      | true => simp [AgentFlags.startThread, Settled, hready, hact, hactive hact]

end AgentFlags

/-! ### One round -/

namespace AgentManager

variable {m m' : AgentManager} {agents agents' : ℕ → Option AgentFlags}
  {rows : List (ℕ × InitAnswer)} {answer : RoundAnswer}

/-- What holds of the old clients and of each new one. -/
theorem startClients_forall {P : AgentFlags → Prop}
    (hinit : ∀ answer a raised, AgentFlags.init answer = .ok (a, raised) → P a)
    (hold : ∀ id a, agents id = some a → P a) (h : startClients agents rows = .ok agents') :
    ∀ id a, agents' id = some a → P a := by
  induction rows generalizing agents with
  | nil =>
      cases h
      exact hold
  | cons r rows ih =>
      obtain ⟨id, answer⟩ := r
      rw [startClients] at h
      split at h
      · exact ih hold h
      · obtain ⟨⟨a, raised⟩, ha, h⟩ := bind_eq_ok.mp h
        have hnew : ∀ other b, Function.update agents id (some a) other = some b → P b := by
          intro other b hb
          by_cases hother : other = id
          · subst hother
            rw [Function.update_self] at hb
            cases hb
            exact hinit answer a raised ha
          · rw [Function.update_of_ne hother] at hb
            exact hold other b hb
        dsimp only at h
        split at h
        · cases h
          exact hnew
        · exact ih hnew h

/-- Without an exception the loop comes to all rows. -/
theorem startClients_known (hraises : ∀ r ∈ rows, r.2.raises = false)
    (h : startClients agents rows = .ok agents') :
    ∀ r ∈ rows, (agents' r.1).isSome = true := by
  induction rows generalizing agents with
  | nil =>
      intro r hr
      cases hr
  | cons r rows ih =>
      obtain ⟨id, answer⟩ := r
      obtain ⟨hanswer, hraises⟩ := List.forall_mem_cons.mp hraises
      have hown : (agents' id).isSome = true := by
        rw [startClients] at h
        split at h
        · next hknown =>
          obtain ⟨a, ha⟩ := Option.isSome_iff_exists.mp hknown
          rw [(startClients_started h).kept id a ha]
          rfl
        · obtain ⟨⟨a, raised⟩, ha, h⟩ := bind_eq_ok.mp h
          rw [(InitAnswer.init_spec ha).2.2, hanswer] at h
          rw [(startClients_started h).kept id a (Function.update_self ..)]
          rfl
      have hrest : ∀ r ∈ rows, (agents' r.1).isSome = true := by
        rw [startClients] at h
        split at h
        · exact ih hraises h
        · obtain ⟨⟨a, raised⟩, ha, h⟩ := bind_eq_ok.mp h
          rw [(InitAnswer.init_spec ha).2.2, hanswer] at h
          exact ih hraises h
      intro r hr
      rcases List.mem_cons.mp hr with rfl | hr
      · exact hown
      · exact hrest r hr

/-- The clients of a backend: settled, and of the agents of a set. -/
structure Within (m : AgentManager) (P : ℕ → Prop) : Prop where
  settled : ∀ id a, m.agents id = some a → a.Settled
  mem : ∀ id, (m.agents id).isSome = true → P id

theorem within_new (P : ℕ → Prop) : AgentManager.new.Within P := by
  constructor
  · intro id a ha
    cases ha
  · intro id hid
    cases hid

theorem updateAgents_cases (h : m.updateAgents answer = .ok m') :
    m' = m ∨ ∃ rows agents, answer.rows = some rows ∧ startClients m.agents rows = .ok agents ∧
      m' = { m with agents := agents } := by
  unfold updateAgents at h
  split at h
  · cases h
  · cases h
    exact Or.inl rfl
  · split at h
    · cases h
      exact Or.inl rfl
    · next rows hrows =>
      obtain ⟨agents, hagents, h⟩ := bind_eq_ok.mp h
      cases h
      exact Or.inr ⟨rows, agents, hrows, hagents, rfl⟩

/-- A round keeps the clients, and adds some of the query. -/
theorem Within.round {P : ℕ → Prop} (h : m.Within P) (hround : m.round answer = .ok m')
    (hrows : ∀ rows, answer.rows = some rows → ∀ r ∈ rows, P r.1) :
    m'.Within P ∧ ∀ id, (m.agents id).isSome = true → (m'.agents id).isSome = true := by
  obtain ⟨u, hu, hround⟩ := bind_eq_ok.mp hround
  cases hround
  have hupdated : (∀ id a, u.agents id = some a → a.Ordered) ∧
      (∀ id, (u.agents id).isSome = true → P id) ∧
      ∀ id, (m.agents id).isSome = true → (u.agents id).isSome = true := by
    rcases updateAgents_cases hu with rfl | ⟨rows, agents, hsome, hagents, rfl⟩
    · exact ⟨fun id a ha => (h.settled id a ha).ordered, h.mem, fun _ hid => hid⟩
    · have hstarted := startClients_started hagents
      refine ⟨?_, ?_, ?_⟩
      · exact startClients_forall (fun _ _ _ => AgentFlags.init_ordered)
          (fun id a ha => (h.settled id a ha).ordered) hagents
      · intro id hid
        obtain ⟨a, ha⟩ := Option.isSome_iff_exists.mp hid
        rcases hstarted.old_or_new id a ha with hold | ⟨answer, hnew, -⟩
        · exact h.mem id (Option.isSome_iff_exists.mpr ⟨a, hold⟩)
        · exact hrows rows hsome _ (inited_subset hnew)
      · intro id hid
        obtain ⟨a, ha⟩ := Option.isSome_iff_exists.mp hid
        exact Option.isSome_iff_exists.mpr ⟨a, hstarted.kept id a ha⟩
  obtain ⟨hordered, hmem, hkept⟩ := hupdated
  refine ⟨⟨fun id a ha => ?_, fun id hid => ?_⟩, fun id hid => ?_⟩
  · obtain ⟨b, hb, rfl⟩ := Option.map_eq_some_iff.mp ha
    exact (hordered id b hb).startThread
  · exact hmem id (by simpa [startThreads] using hid)
  · simpa [startThreads] using hkept id hid

/-- A round whose query is carried out, and that no exception ends, comes to all agents. -/
theorem round_known (hround : m.round ⟨.connection, some rows⟩ = .ok m')
    (hraises : ∀ r ∈ rows, r.2.raises = false) :
    ∀ r ∈ rows, (m'.agents r.1).isSome = true := by
  obtain ⟨u, hu, hround⟩ := bind_eq_ok.mp hround
  cases hround
  obtain ⟨agents, hagents, hu⟩ := bind_eq_ok.mp hu
  cases hu
  intro r hr
  simpa [startThreads] using startClients_known hraises hagents r hr

end AgentManager

/-! ### Runs -/

namespace Groups

variable {centralId groupOf : ℕ → ℤ} {s : Groups} {move : GroupMove} {moves : List GroupMove}
  {backend id : ℕ} {m m' : AgentManager}

/-- The agents of the group of a backend; a backend without a group has all. -/
def InGroup (centralId groupOf : ℕ → ℤ) (backend id : ℕ) : Prop :=
  CentralRow.selected (centralId backend) ⟨id, groupOf id⟩ = true

/-- No agent is in another group than ever. -/
def Grouped (groupOf : ℕ → ℤ) (rows : List CentralRow) : Prop :=
  ∀ row ∈ rows, row.centralId = groupOf row.id

/-- The clients of each backend are of agents of its group. -/
structure Sound (s : Groups) (centralId groupOf : ℕ → ℤ) : Prop where
  rows : Grouped groupOf s.rows
  managers : ∀ backend m, s.managers backend = some m → m.Within (InGroup centralId groupOf backend)

theorem mem_selectAgents {domains : ℤ} {rows : List CentralRow} :
    id ∈ selectAgents domains rows ↔ ∃ row ∈ rows, row.selected domains = true ∧ row.id = id := by
  simp [selectAgents, and_assoc]

theorem selected_grouped {rows : List CentralRow} {row : CentralRow} (hrows : Grouped groupOf rows)
    (hrow : row ∈ rows) :
    row.selected (centralId backend) = true ↔ InGroup centralId groupOf backend row.id := by
  have hgroup := hrows row hrow
  unfold InGroup CentralRow.selected
  rw [← hgroup]

/-- The query of a round selects agents of the group. -/
theorem answer_inGroup {rows : List CentralRow} {grab : Grabbed} {carriedOut : Bool}
    {init : ℕ → InitAnswer} {selected : List (ℕ × InitAnswer)} (hrows : Grouped groupOf rows)
    (h : (answer (centralId backend) rows grab carriedOut init).rows = some selected) :
    ∀ r ∈ selected, InGroup centralId groupOf backend r.1 := by
  unfold answer at h
  dsimp only at h
  split at h
  · cases h
    intro r hr
    obtain ⟨id, hid, rfl⟩ := List.mem_map.mp hr
    obtain ⟨row, hrow, hselected, rfl⟩ := mem_selectAgents.mp hid
    exact (selected_grouped hrows hrow).mp hselected
  · cases h

/-- The managers after one of them has changed. -/
theorem forall_update {P : ℕ → AgentManager → Prop} {managers : ℕ → Option AgentManager}
    {new : Option AgentManager} (h : ∀ b m, managers b = some m → P b m)
    (hnew : ∀ m, new = some m → P backend m) :
    ∀ b m, Function.update managers backend new b = some m → P b m := by
  intro b m hm
  by_cases hb : b = backend
  · subst hb
    rw [Function.update_self] at hm
    exact hnew m hm
  · rw [Function.update_of_ne hb] at hm
    exact h b m hm

/-- What a round that does not end the process comes to. -/
theorem round_eq_some {grab : Grabbed} {carriedOut : Bool} {init : ℕ → InitAnswer}
    (h : ((s.managers backend).bind fun m => (m.round
      (answer (centralId backend) s.rows grab carriedOut init)).toOption) = some m') :
    ∃ m, s.managers backend = some m ∧
      m.round (answer (centralId backend) s.rows grab carriedOut init) = .ok m' := by
  obtain ⟨m, hm, h⟩ := Option.bind_eq_some_iff.mp h
  exact ⟨m, hm, eq_ok_of_toOption h⟩

theorem Sound.step (hs : s.Sound centralId groupOf)
    (hedit : ∀ rows, move = .edit rows → Grouped groupOf rows) :
    (s.step centralId move).Sound centralId groupOf := by
  cases move with
  | edit rows => exact ⟨hedit rows rfl, hs.managers⟩
  | start backend =>
      refine ⟨hs.rows, forall_update hs.managers fun m hm => ?_⟩
      cases hm
      exact AgentManager.within_new _
  | stop backend =>
      refine ⟨hs.rows, forall_update hs.managers fun m hm => ?_⟩
      cases hm
  | round backend grab carriedOut init =>
      refine ⟨hs.rows, forall_update hs.managers fun m' hm' => ?_⟩
      obtain ⟨m, hm, hround⟩ := round_eq_some hm'
      exact ((hs.managers backend m hm).round hround fun rows hrows =>
        answer_inGroup hs.rows hrows).1

theorem Sound.run (hs : s.Sound centralId groupOf)
    (hedits : ∀ rows, .edit rows ∈ moves → Grouped groupOf rows) :
    (s.run centralId moves).Sound centralId groupOf := by
  apply foldl_invariant (P := fun t : Groups => t.Sound centralId groupOf) _ hs
  intro t move hmove ht
  exact ht.step fun rows heq => hedits rows (heq ▸ hmove)

theorem sound_idle {rows : List CentralRow} (hrows : Grouped groupOf rows) :
    (idle rows).Sound centralId groupOf := by
  refine ⟨hrows, fun backend m hm => ?_⟩
  cases hm

/-! ### A good round -/

/-- The backend has ended, or has clients for all the agents. -/
def Covers (s : Groups) (backend : ℕ) (ids : List ℕ) : Prop :=
  ∀ m, s.managers backend = some m → ∀ id ∈ ids, (m.agents id).isSome = true

/-- A backend that is not started again keeps its clients. -/
theorem Covers.step {ids : List ℕ} (h : s.Covers backend ids) (hs : s.Sound centralId groupOf)
    (hmove : move ≠ .start backend) : (s.step centralId move).Covers backend ids := by
  unfold Covers
  cases move with
  | edit rows => exact h
  | start b =>
      have hb : backend ≠ b := fun heq => hmove (congrArg GroupMove.start heq.symm)
      simp only [Groups.step, Function.update_of_ne hb]
      exact h
  | stop b =>
      intro m hm
      by_cases hb : backend = b
      · subst hb
        simp only [Groups.step, Function.update_self] at hm
        cases hm
      · simp only [Groups.step, Function.update_of_ne hb] at hm
        exact h m hm
  | round b grab carriedOut init =>
      intro m' hm'
      by_cases hb : backend = b
      · subst hb
        simp only [Groups.step, Function.update_self] at hm'
        obtain ⟨m, hm, hround⟩ := round_eq_some hm'
        have hkept := ((hs.managers backend m hm).round hround fun rows hrows =>
          answer_inGroup hs.rows hrows).2
        exact fun id hid => hkept id (h m hm id hid)
      · simp only [Groups.step, Function.update_of_ne hb] at hm'
        exact h m' hm'

/-- After a good round a backend has clients for all agents that it selects. -/
theorem covers_round {init : ℕ → InitAnswer} (hinit : ∀ id, (init id).raises = false) :
    (s.step centralId (.round backend .connection true init)).Covers backend
      (selectAgents (centralId backend) s.rows) := by
  intro m' hm' id hid
  simp only [Groups.step, Function.update_self] at hm'
  obtain ⟨m, -, hround⟩ := round_eq_some hm'
  refine AgentManager.round_known hround ?_ (id, init id) (List.mem_map_of_mem hid)
  intro r hr
  obtain ⟨other, -, rfl⟩ := List.mem_map.mp hr
  exact hinit other

/-- The backend has made a round since it was started last: its queries were carried out, and the
API of no new agent raised an exception. -/
def Rested (backend : ℕ) (moves : List GroupMove) : Prop :=
  ∃ before after init, moves = before ++ .round backend .connection true init :: after ∧
    (∀ id, (init id).raises = false) ∧ .start backend ∉ after

theorem step_rows (hedit : ∀ rows, move ≠ .edit rows) : (s.step centralId move).rows = s.rows := by
  cases move with
  | edit rows => exact absurd rfl (hedit rows)
  | start b => rfl
  | stop b => rfl
  | round b grab carriedOut init => rfl

theorem run_rows (hedits : ∀ rows, .edit rows ∉ moves) : (run centralId s moves).rows = s.rows := by
  apply foldl_invariant (P := fun t : Groups => t.rows = s.rows)
  · intro t move hmove ht
    rw [step_rows fun rows heq => hedits rows (heq ▸ hmove)]
    exact ht
  · rfl

theorem covers_rested (hs : s.Sound centralId groupOf) (hrested : Rested backend moves)
    (hedits : ∀ rows, .edit rows ∉ moves) :
    (run centralId s moves).Covers backend (selectAgents (centralId backend) s.rows) := by
  obtain ⟨before, after, init, rfl, hinit, hstart⟩ := hrested
  have hbefore : ∀ rows, .edit rows ∉ before := fun rows h => hedits rows (List.mem_append_left _ h)
  have hafter : ∀ rows, .edit rows ∉ after :=
    fun rows h => hedits rows (List.mem_append_right _ (List.mem_cons_of_mem _ h))
  have hmid : (run centralId s before).Sound centralId groupOf :=
    hs.run fun rows hmem => absurd hmem (hbefore rows)
  rw [run, List.foldl_append, List.foldl_cons]
  have hsame : (run centralId s before).rows = s.rows := run_rows hbefore
  rw [← hsame]
  have hround : ((run centralId s before).step centralId
      (.round backend .connection true init)).Sound centralId groupOf :=
    hmid.step fun rows heq => by cases heq
  refine (foldl_invariant (P := fun t : Groups => t.Sound centralId groupOf ∧
    t.Covers backend (selectAgents (centralId backend) (run centralId s before).rows)) ?_
      ⟨hround, covers_round hinit⟩).2
  intro t move hmove ht
  refine ⟨ht.1.step fun rows heq => absurd hmove (heq ▸ hafter rows), ht.2.step ht.1 ?_⟩
  intro heq
  exact hstart (heq ▸ hmove)

/-! ### Clients and threads -/

theorem Sound.knows (hs : s.Sound centralId groupOf) (h : s.Knows backend id) :
    s.Running backend ∧ InGroup centralId groupOf backend id := by
  obtain ⟨m, hm, hid⟩ := h
  exact ⟨Option.isSome_iff_exists.mpr ⟨m, hm⟩, (hs.managers backend m hm).mem id hid⟩

/-- A thread runs for each client whose `init` has not failed. -/
theorem Sound.polls_iff (hs : s.Sound centralId groupOf) :
    s.Polls backend id ↔ s.Knows backend id ∧ ¬ s.Stuck backend id := by
  constructor
  · rintro ⟨m, hm, a, ha, hrunning⟩
    refine ⟨⟨m, hm, Option.isSome_iff_exists.mpr ⟨a, ha⟩⟩, ?_⟩
    rintro ⟨m', hm', b, hb, hready⟩
    cases hm.symm.trans hm'
    cases ha.symm.trans hb
    rw [((hs.managers backend m hm).settled id a ha).2.mp hrunning] at hready
    cases hready
  · rintro ⟨⟨m, hm, hid⟩, hstuck⟩
    obtain ⟨a, ha⟩ := Option.isSome_iff_exists.mp hid
    refine ⟨m, hm, a, ha, ((hs.managers backend m hm).settled id a ha).2.mpr ?_⟩
    rw [← Bool.not_eq_false]
    exact fun hready => hstuck ⟨m, hm, a, ha, hready⟩

end Groups

/-- In every run of any number of backends, in which no agent changes its group, a backend polls
agents of its own group only. If the table rests from then on, then, once each running backend has
made a round whose query was carried out and that no exception ended, it has a client for every
agent of the table in its group, and polls it unless its `init` has failed. -/
theorem agents_shared (centralId groupOf : ℕ → ℤ) (rows : List CentralRow)
    (moves : List GroupMove) (hrows : Groups.Grouped groupOf rows)
    (hedits : ∀ rows', .edit rows' ∈ moves → Groups.Grouped groupOf rows') (s : Groups)
    (hrun : Groups.run centralId (.idle rows) moves = s) :
    (∀ backend id, s.Polls backend id → Groups.InGroup centralId groupOf backend id) ∧
    ∀ late, (∀ rows', .edit rows' ∉ late) →
      ∀ t, Groups.run centralId s late = t →
        (∀ backend, t.Running backend → Groups.Rested backend late) →
          ∀ row ∈ t.rows, ∀ backend,
            (t.Knows backend row.id ↔
              t.Running backend ∧ row.selected (centralId backend) = true) ∧
            (t.Polls backend row.id ↔ t.Knows backend row.id ∧ ¬ t.Stuck backend row.id) := by
  have hs : s.Sound centralId groupOf := hrun ▸ (Groups.sound_idle hrows).run hedits
  refine ⟨fun backend id hpolls => (hs.knows (hs.polls_iff.mp hpolls).1).2, ?_⟩
  intro late hlate t ht hrested row hrow backend
  have hsound : t.Sound centralId groupOf := by
    rw [← ht]
    exact hs.run fun rows' hmem => absurd hmem (hlate rows')
  have hsame : t.rows = s.rows := by
    rw [← ht]
    exact Groups.run_rows hlate
  refine ⟨⟨fun hknows => ?_, ?_⟩, hsound.polls_iff⟩
  · obtain ⟨hrunning, hgroup⟩ := hsound.knows hknows
    exact ⟨hrunning, (Groups.selected_grouped hsound.rows hrow).mpr hgroup⟩
  · rintro ⟨hrunning, hselected⟩
    have hcovers := Groups.covers_rested hs (hrested backend hrunning) hlate
    rw [ht] at hcovers
    obtain ⟨m, hm⟩ := Option.isSome_iff_exists.mp hrunning
    rw [hsame] at hrow
    exact ⟨m, hm, hcovers m hm row.id (Groups.mem_selectAgents.mpr ⟨row, hrow, hselected, rfl⟩)⟩

/-! ### Two groups -/

def twoGroups : List CentralRow := [⟨1, 1⟩, ⟨2, 2⟩]

/-- Every operation succeeds. -/
def processedInit : ℕ → InitAnswer := fun _ => ⟨.connection, .row, .processed⟩

/-- Two backends are started, and each makes a round. -/
def twoStarts : List GroupMove :=
  [.start 1, .start 2, .round 1 .connection true processedInit,
    .round 2 .connection true processedInit]

/-- Each backend has the agents of its group, once they are put into the table. -/
theorem agents_shared_twoGroups :
    ∃ s, Groups.run (fun b => b) (.idle twoGroups) twoStarts = s ∧
      ∀ row ∈ s.rows, ∀ backend,
        (s.Knows backend row.id ↔ s.Running backend ∧ row.selected backend = true) := by
  have hgrouped : Groups.Grouped (fun id => (id : ℤ)) twoGroups := by
    intro row hrow
    fin_cases hrow <;> rfl
  have hrested : ∀ backend, (Groups.run (fun b => b) (.idle twoGroups) twoStarts).Running backend →
      Groups.Rested backend twoStarts := by
    intro backend hrunning
    by_cases hone : backend = 1
    · subst hone
      exact ⟨[.start 1, .start 2], [.round 2 .connection true processedInit], processedInit, rfl,
        fun _ => rfl, by simp⟩
    · by_cases htwo : backend = 2
      · subst htwo
        exact ⟨[.start 1, .start 2, .round 1 .connection true processedInit], [], processedInit, rfl,
          fun _ => rfl, by simp⟩
      · simp [Groups.run, Groups.step, twoStarts, Groups.Running, Groups.idle, hone, htwo] at hrunning
  have hedits : ∀ rows', GroupMove.edit rows' ∈ [GroupMove.edit twoGroups] →
      Groups.Grouped (fun id => (id : ℤ)) rows' := by
    intro rows' hmem
    cases List.mem_singleton.mp hmem
    exact hgrouped
  have hshared := agents_shared (fun b => b) (fun id => id) [] [.edit twoGroups]
    (by simp [Groups.Grouped]) hedits (.idle twoGroups) rfl
  have hlate : ∀ rows', GroupMove.edit rows' ∉ twoStarts := by simp [twoStarts]
  exact ⟨_, rfl, fun row hrow backend => (hshared.2 twoStarts hlate _ rfl hrested row hrow backend).1⟩

end WatchedBack
