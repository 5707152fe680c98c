import WatchedBack.Verification.Pool.Accounting

/-! # The connections that the start of the agents keeps

`init` takes a connection and only the end of `updateApi` gives it back. -/

namespace WatchedBack

open Pool

section start

variable {poolSize id : ℕ} {p q : Pool Holder} {agents agents' : List ℕ} {answer : AgentAnswer}
  {rows : List (ℕ × AgentAnswer)} {raised : Bool}

/-- The agent has its API processed, or never got a connection. -/
def AgentAnswer.Returns (answer : AgentAnswer) : Prop :=
  answer.grab.throws = true ∨ (answer.row ≠ .failed ∧ answer.api = .processed)

/-- An exception leaves `init`. -/
def AgentAnswer.raises (answer : AgentAnswer) : Bool :=
  answer.grab.throws ∨ (answer.row ≠ .failed ∧ answer.api = .threw)

/-- The agents that the loop creates. -/
def created (agents : List ℕ) : List (ℕ × AgentAnswer) → List (ℕ × AgentAnswer)
  | [] => []
  | (id, answer) :: rows =>
      if id ∈ agents then created agents rows
      else if answer.raises then [(id, answer)]
      else (id, answer) :: created (agents ++ [id]) rows

/-! ### One agent -/

/-- What `init` of an agent without a connection leaves. -/
structure InitSpec (p : Pool Holder) (id : ℕ) (answer : AgentAnswer) (q : Pool Holder)
    (raised : Bool) : Prop where
  raised : raised = answer.raises
  held : q.held = p.held ∧ answer.Returns ∨ q.held = .agent id :: p.held ∧ ¬ answer.Returns

theorem agentUpdateApi_spec (api : ApiAnswer) (hheld : p.held = .agent id :: q.held) :
    (agentUpdateApi p id api).2 = decide (api = .threw) ∧
      (agentUpdateApi p id api).1.held =
        if api = .processed then q.held else .agent id :: q.held := by
  cases api with
  | unreachable => exact ⟨rfl, hheld⟩
  | unparsable => exact ⟨rfl, hheld⟩
  | threw => exact ⟨rfl, hheld⟩
  | processed =>
      refine ⟨rfl, ?_⟩
      have hmem : Holder.agent id ∈ p.held := hheld ▸ List.mem_cons_self
      simp only [agentUpdateApi, release_of_mem hmem, hheld, List.erase_cons_head, if_true]

theorem agentInit_spec (hfresh : .agent id ∉ p.held)
    (h : agentInit poolSize p id answer = some (q, raised)) : InitSpec p id answer q raised := by
  obtain ⟨m, hm, h⟩ := Option.bind_eq_some_iff.mp h
  obtain ⟨-, hheld⟩ := grab_of_notMem hfresh hm
  cases hthrows : answer.grab.throws with
  | true =>
      simp only [hthrows, if_true] at h hheld
      cases h
      exact ⟨by simp [AgentAnswer.raises, hthrows], Or.inl ⟨hheld, Or.inl hthrows⟩⟩
  | false =>
      simp only [hthrows, Bool.false_eq_true, if_false] at h hheld
      obtain ⟨hraised, hafter⟩ := agentUpdateApi_spec (q := p) answer.api hheld
      have hcase (hr : answer.row ≠ .failed) (heq : agentUpdateApi m id answer.api = (q, raised)) :
          InitSpec p id answer q raised := by
        rw [heq] at hraised hafter
        have hthrew : raised = decide (answer.api = .threw) := hraised
        refine ⟨by simp [hthrew, AgentAnswer.raises, hthrows, hr], ?_⟩
        by_cases hapi : answer.api = .processed
        · exact Or.inl ⟨by simpa [hapi] using hafter, Or.inr ⟨hr, hapi⟩⟩
        · exact Or.inr ⟨by simpa [hapi] using hafter, by simp [AgentAnswer.Returns, hthrows, hapi]⟩
      cases hrow : answer.row with
      | failed =>
          rw [hrow] at h
          cases h
          exact ⟨by simp [AgentAnswer.raises, hthrows, hrow],
            Or.inr ⟨hheld, by simp [AgentAnswer.Returns, hthrows, hrow]⟩⟩
      | threw =>
          rw [hrow] at h
          exact hcase (by simp [hrow]) (Option.some.inj h)
      | empty =>
          rw [hrow] at h
          cases h
      | row =>
          rw [hrow] at h
          exact hcase (by simp [hrow]) (Option.some.inj h)

theorem InitSpec.mem_held (h : InitSpec p id answer q raised) {o : Holder} :
    o ∈ q.held ↔ o ∈ p.held ∨ o = .agent id ∧ ¬ answer.Returns := by
  rcases h.held with ⟨heq, hret⟩ | ⟨heq, hret⟩
  · simp [heq, hret]
  · simp [heq, hret, or_comm]

/-! ### The loop -/

/-- The objects not yet created hold nothing. -/
def Fresh (p : Pool Holder) (agents : List ℕ) : Prop := ∀ id ∉ agents, .agent id ∉ p.held

theorem InitSpec.fresh (h : InitSpec p id answer q raised) (hp : Fresh p agents) :
    Fresh q (agents ++ [id]) := by
  intro other hother
  obtain ⟨hold, hne⟩ : other ∉ agents ∧ other ≠ id := by simpa using hother
  rw [h.mem_held]
  rintro (hmem | ⟨heq, -⟩)
  · exact hp other hold hmem
  · cases heq
    exact hne rfl

/-- The loop adds the created agents, and of their connections it leaves those of the agents
that return nothing. -/
theorem startAgents_spec (hp : Fresh p agents)
    (h : startAgents poolSize p agents rows = some (q, agents')) :
    agents' = agents ++ (created agents rows).map Prod.fst ∧ ∀ o, o ∈ q.held ↔
      o ∈ p.held ∨ ∃ r ∈ created agents rows, o = .agent r.1 ∧ ¬ r.2.Returns := by
  induction rows generalizing p agents with
  | nil =>
      cases h
      simp [created]
  | cons row rows ih =>
      obtain ⟨id, answer⟩ := row
      by_cases hid : id ∈ agents
      · rw [startAgents, if_pos hid] at h
        rw [created, if_pos hid]
        exact ih hp h
      · rw [startAgents, if_neg hid] at h
        obtain ⟨⟨m, raised⟩, hm, h⟩ := Option.bind_eq_some_iff.mp h
        have hspec := agentInit_spec (hp id hid) hm
        rw [created, if_neg hid, ← hspec.raised]
        cases raised with
        | true =>
            cases h
            simp [hspec.mem_held]
        | false =>
            obtain ⟨hagents, hheld⟩ := ih (hspec.fresh hp) h
            refine ⟨by simp [hagents], fun o => ?_⟩
            simp only [hheld, hspec.mem_held, Bool.false_eq_true, if_false, List.mem_cons,
              exists_eq_or_imp, or_assoc]

theorem notMem_of_mem_created {r : ℕ × AgentAnswer} (h : r ∈ created agents rows) :
    r.1 ∉ agents := by
  induction rows generalizing agents with
  | nil => simp [created] at h
  | cons row rows ih =>
      obtain ⟨id, answer⟩ := row
      rw [created] at h
      split_ifs at h with hid hraises
      · exact ih h
      · rw [List.mem_singleton.mp h]
        exact hid
      · rcases List.mem_cons.mp h with rfl | h
        · exact hid
        · exact fun hmem => ih h (List.mem_append_left _ hmem)

/-! ### `updateAgents` -/

theorem mem_grab {o o' : Holder} {grabbed : GrabAnswer} (hne : o' ≠ o)
    (h : p.grab poolSize o grabbed = some q) : o' ∈ q.held ↔ o' ∈ p.held := by
  by_cases ho : o ∈ p.held
  · rw [grab_of_mem ho] at h
    cases h
    rfl
  · rw [(grab_of_notMem ho h).2]
    split
    · rfl
    · rw [List.mem_cons, or_iff_right hne]

theorem mem_release {o o' : Holder} (hne : o' ≠ o) : o' ∈ (p.release o).held ↔ o' ∈ p.held := by
  by_cases ho : o ∈ p.held
  · rw [release_of_mem ho]
    exact List.mem_erase_of_ne hne
  · rw [release_of_notMem ho]

/-- No agent that `updateAgents` has created keeps a connection exactly when each of them has
its API processed, or never got a connection. -/
theorem update_returns_iff {grabbed : GrabAnswer} (hp : Fresh p agents)
    (h : updateAgents poolSize p agents grabbed rows = some (q, agents')) :
    (∀ id ∈ agents', id ∉ agents → .agent id ∉ q.held) ↔
      ∀ r ∈ created agents rows, r.2.Returns := by
  rw [updateAgents] at h
  split at h
  · cases h
  · obtain ⟨m, hm, h⟩ := Option.bind_eq_some_iff.mp h
    obtain ⟨⟨s, agents''⟩, hs, heq⟩ := Option.map_eq_some_iff.mp h
    cases heq
    have hfresh : Fresh m agents := fun id hid => by
      rw [mem_grab (by simp) hm]
      exact hp id hid
    obtain ⟨hagents, hheld⟩ := startAgents_spec hfresh hs
    have hafter (id : ℕ) : .agent id ∈ (s.release .manager).held ↔
        .agent id ∈ m.held ∨ ∃ r ∈ created agents rows, id = r.1 ∧ ¬ r.2.Returns := by
      rw [mem_release (by simp), hheld]
      simp only [Holder.agent.injEq]
    constructor
    · intro hnone r hr
      have hnew := notMem_of_mem_created hr
      have hmem : r.1 ∈ agents'' := by
        rw [hagents]
        exact List.mem_append_right _ (List.mem_map_of_mem hr)
      by_contra hret
      exact hnone r.1 hmem hnew ((hafter r.1).mpr (Or.inr ⟨r, hr, rfl, hret⟩))
    · intro hret id _ hnew hmem
      rcases (hafter id).mp hmem with hold | ⟨r, hr, -, hnot⟩
      · exact hfresh id hnew hold
      · exact hnot (hret r hr)

/-! ### Two agents -/

def processedAgent : AgentAnswer := ⟨⟨0, false⟩, .row, .processed⟩

def unreachableAgent : AgentAnswer := ⟨⟨0, false⟩, .row, .unreachable⟩

theorem update_returns_processed :
    ∃ q agents, updateAgents 1 Pool.empty [] ⟨0, false⟩ [(1, processedAgent)] = some (q, agents) ∧
      ∀ id ∈ agents, id ∉ ([] : List ℕ) → .agent id ∉ q.held := by
  have hrun : updateAgents 1 Pool.empty [] ⟨0, false⟩ [(1, processedAgent)] = some (⟨0, []⟩, [1]) := by
    decide
  refine ⟨_, _, hrun, (update_returns_iff (fun _ _ => List.not_mem_nil) hrun).mpr fun r hr => ?_⟩
  rw [List.mem_singleton.mp hr]
  exact Or.inr ⟨by decide, rfl⟩

/-- Agents that do not answer keep their connections, and with a pool of one the start waits
for ever at the second of them. -/
theorem unreachable_agent_holds :
    (∃ q agents, updateAgents 1 Pool.empty [] ⟨0, false⟩ [(1, unreachableAgent)] =
        some (q, agents) ∧ ∃ id ∈ agents, .agent id ∈ q.held) ∧
      updateAgents 1 Pool.empty [] ⟨0, false⟩ [(1, unreachableAgent), (2, unreachableAgent)] =
        none :=
  ⟨⟨⟨1, [.agent 1]⟩, [1], by decide, by decide⟩, by decide⟩

end start

end WatchedBack
