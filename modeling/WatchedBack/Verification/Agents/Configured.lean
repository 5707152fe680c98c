import WatchedBack.Library.Fallible
import WatchedBack.Model.Configuration

/-! # What a ready agent knows

A query that throws leaves the members as the constructor set them, and the client is ready all
the same. Nothing sets them later, for `init` returns at once then. -/

namespace WatchedBack

open Fallible

namespace AgentSettings

/-- The members have what the row holds. -/
structure TakenFrom (a : AgentSettings) (row : AgentRow) : Prop where
  id : row.id = a.id
  baseurl : a.baseurl = row.baseurl
  poolFreq : a.poolFreq = row.poolFreq ∧ row.poolFreq.isSome = true
  client : a.client = some (row.baseurl, row.usesSsl)

end AgentSettings

/-- The answer that a call meets when it asks for the configuration. -/
def AgentCall.answer? : AgentCall → Option ConfigAnswer
  | .init .connection answer => some answer
  | .updateApi .connection answer => some answer
  | _ => none

/-- A row that some call was given. -/
def RowGiven (calls : List AgentCall) (row : AgentRow) : Prop :=
  ∃ call ∈ calls, ∃ rows, call.answer? = some (.found rows) ∧ row ∈ rows

/-- A ready client has taken its members from a row of its own, and a thread that was started has
an address and a polling period. -/
structure Configured (calls : List AgentCall) (a : AgentSettings) : Prop where
  ready : a.ready = true → ∃ row, RowGiven calls row ∧ a.TakenFrom row
  active : a.active = true → a.baseurl ≠ "" ∧ a.poolFreq.isSome = true

/-- The query fails outright, or finds the row of the agent with a period that can be converted. -/
def ConfigAnswer.Usable (id : ℕ) : ConfigAnswer → Prop
  | .failed => True
  | .threw => False
  | .found rows =>
      ∃ row, rows.find? (fun row => row.id = id) = some row ∧ row.poolFreq.isSome = true

/-- A client that is not ready asks, and is given a usable answer. -/
def AgentCall.Usable (a : AgentSettings) (call : AgentCall) : Prop :=
  a.ready = false → ∀ answer, call.answer? = some answer → answer.Usable a.id

/-! ### One call -/

section call

variable {a a' : AgentSettings} {call : AgentCall} {calls : List AgentCall}

theorem baseurl_ne_empty (row : AgentRow) : row.baseurl ≠ "" := by
  intro h
  have hlength := congrArg String.length h
  unfold AgentRow.baseurl at hlength
  split at hlength
  · simp at hlength
  · simp at hlength

theorem exec_of_answer (hready : a.ready = false) {answer : ConfigAnswer}
    (h : call.answer? = some answer) : call.exec a = a.configure answer := by
  cases call with
  | startThread => cases h
  | init grab answer' =>
      cases grab with
      | connection =>
          cases h
          simp [AgentCall.exec, AgentSettings.init, hready]
      | nothing => cases h
      | threw => cases h
  | updateApi grab answer' =>
      cases grab with
      | connection =>
          cases h
          simp [AgentCall.exec, AgentSettings.init, hready]
      | nothing => cases h
      | threw => cases h

/-- A call that does not ask for the configuration at most starts the thread. -/
theorem exec_of_not (h : a.ready = true ∨ call.answer? = none) :
    call.exec a = .ok a ∨ call.exec a = .ok a.startThread := by
  cases call with
  | startThread => exact Or.inr rfl
  | init grab answer =>
      apply Or.inl
      rcases h with hready | hanswer
      · simp [AgentCall.exec, AgentSettings.init, hready]
      · cases grab with
        | connection => cases hanswer
        | nothing => simp [AgentCall.exec, AgentSettings.init]
        | threw => simp [AgentCall.exec, AgentSettings.init]
  | updateApi grab answer =>
      apply Or.inl
      rcases h with hready | hanswer
      · simp [AgentCall.exec, hready]
      · cases grab with
        | connection => cases hanswer
        | nothing => simp [AgentCall.exec, AgentSettings.init]
        | threw => simp [AgentCall.exec, AgentSettings.init]

/-- Everything that a call can do. -/
theorem exec_cases (a : AgentSettings) (call : AgentCall) :
    call.exec a = .ok a ∨ call.exec a = .ok a.startThread ∨
      a.ready = false ∧ ∃ answer, call.answer? = some answer ∧ call.exec a = a.configure answer := by
  cases hready : a.ready with
  | true =>
      rcases exec_of_not (Or.inl hready) with heq | heq
      · exact Or.inl heq
      · exact Or.inr (Or.inl heq)
  | false =>
      cases hanswer : call.answer? with
      | none =>
          rcases exec_of_not (Or.inr hanswer) with heq | heq
          · exact Or.inl heq
          · exact Or.inr (Or.inl heq)
      | some answer => exact Or.inr (Or.inr ⟨rfl, answer, rfl, exec_of_answer hready hanswer⟩)

theorem startThread_eq (a : AgentSettings) :
    a.startThread = { a with active := a.active || a.ready } := by
  obtain ⟨id, ready, active, baseurl, poolFreq, client⟩ := a
  cases ready with
  | false => simp [AgentSettings.startThread]
  | true =>
      cases active with
      | false => rfl
      | true => rfl

/-- A usable answer leaves the client as it is, or makes it ready with a row of its own. -/
theorem configure_of_usable {answer : ConfigAnswer} (h : answer.Usable a.id) :
    a.configure answer = .ok a ∨ ∃ rows row, answer = .found rows ∧ row ∈ rows ∧
      ∃ a', a.configure answer = .ok a' ∧ a'.TakenFrom row ∧ a'.active = a.active := by
  cases answer with
  | failed => exact Or.inl rfl
  | threw => cases h
  | found rows =>
      obtain ⟨row, hrow, hfreq⟩ := h
      obtain ⟨freq, hfreq⟩ := Option.isSome_iff_exists.mp hfreq
      refine Or.inr ⟨rows, row, rfl, List.mem_of_find?_eq_some hrow, ?_⟩
      have hid : row.id = a.id := by simpa using List.find?_some hrow
      simp only [AgentSettings.configure, hrow, hfreq]
      exact ⟨_, rfl, ⟨hid, rfl, ⟨hfreq.symm, by rw [hfreq]; rfl⟩, rfl⟩, rfl⟩

/-- An answer that is not usable is read where nothing is, or makes the client ready without a
polling period. -/
theorem configure_of_not_usable {answer : ConfigAnswer} (h : ¬ answer.Usable a.id)
    (hfreq : a.poolFreq = none) : a.configure answer = .error .undefined ∨
      ∃ a', a.configure answer = .ok a' ∧ a'.ready = true ∧ a'.poolFreq = none := by
  cases answer with
  | failed => exact absurd trivial h
  | threw => exact Or.inr ⟨_, rfl, rfl, hfreq⟩
  | found rows =>
      cases hrow : rows.find? fun row => row.id = a.id with
      | none =>
          apply Or.inl
          simp [AgentSettings.configure, hrow]
      | some row =>
          have hnone : row.poolFreq = none := by
            rw [← Option.not_isSome_iff_eq_none]
            intro hsome
            exact h ⟨row, hrow, hsome⟩
          apply Or.inr
          simp only [AgentSettings.configure, hrow, hnone]
          exact ⟨_, rfl, rfl, hfreq⟩

/-- What is configured is ready from then on. -/
theorem ready_of_configure {answer : ConfigAnswer} (h : a.configure answer = .ok a') :
    a' = a ∨ (a'.id = a.id ∧ a'.ready = true) := by
  unfold AgentSettings.configure at h
  cases answer with
  | failed =>
      cases h
      exact Or.inl rfl
  | threw =>
      cases h
      exact Or.inr ⟨rfl, rfl⟩
  | found rows =>
      dsimp only at h
      split at h
      · cases h
      · split at h
        · cases h
          exact Or.inr ⟨rfl, rfl⟩
        · cases h
          exact Or.inr ⟨rfl, rfl⟩

end call

/-! ### Runs -/

section run

variable {id : ℕ} {a : AgentSettings} {calls : List AgentCall}

theorem rowGiven_append {call : AgentCall} {row : AgentRow} (h : RowGiven calls row) :
    RowGiven (calls ++ [call]) row := by
  obtain ⟨given, hmem, hrow⟩ := h
  exact ⟨given, List.mem_append_left _ hmem, hrow⟩

/-- What holds of a client before it is ready, and of its id. -/
structure AgentSettings.Sound (id : ℕ) (a : AgentSettings) : Prop where
  id : a.id = id
  poolFreq : a.ready = false → a.poolFreq = none
  active : a.active = true → a.ready = true

theorem sound_exec {a' : AgentSettings} {call : AgentCall} (h : a.Sound id)
    (hexec : call.exec a = .ok a') : a'.Sound id := by
  rcases exec_cases a call with heq | heq | ⟨hready, answer, hanswer, heq⟩
  · rw [heq] at hexec
    cases hexec
    exact h
  · rw [heq, startThread_eq] at hexec
    cases hexec
    refine ⟨h.id, h.poolFreq, fun hactive => ?_⟩
    rcases Bool.or_eq_true_iff.mp hactive with hactive | hready
    · exact h.active hactive
    · exact hready
  · rw [heq] at hexec
    rcases ready_of_configure hexec with rfl | ⟨hid, hready'⟩
    · exact h
    · refine ⟨hid.trans h.id, fun hf => ?_, fun _ => hready'⟩
      rw [hready'] at hf
      cases hf

theorem sound_run (hrun : calls.foldlM AgentCall.exec (.new id) = .ok a) : a.Sound id := by
  refine foldlM_invariant (AgentSettings.Sound id)
    (fun s s' call _ h hexec => sound_exec h hexec) ⟨rfl, fun _ => rfl, ?_⟩ hrun
  intro hactive
  cases hactive

theorem Configured.append {call : AgentCall} (h : Configured calls a) :
    Configured (calls ++ [call]) a := by
  refine ⟨fun hready => ?_, h.active⟩
  obtain ⟨row, hgiven, hrow⟩ := h.ready hready
  exact ⟨row, rowGiven_append hgiven, hrow⟩

theorem Configured.startThread (h : Configured calls a) : Configured calls a.startThread := by
  rw [startThread_eq]
  refine ⟨fun hready => ?_, fun hactive => ?_⟩
  · obtain ⟨row, hgiven, hrow⟩ := h.ready hready
    exact ⟨row, hgiven, ⟨hrow.id, hrow.baseurl, hrow.poolFreq, hrow.client⟩⟩
  · rcases Bool.or_eq_true_iff.mp hactive with hactive | hready
    · exact h.active hactive
    · obtain ⟨row, -, hrow⟩ := h.ready hready
      refine ⟨?_, ?_⟩
      · rw [hrow.baseurl]
        exact baseurl_ne_empty row
      · rw [hrow.poolFreq.1]
        exact hrow.poolFreq.2

/-- A usable call keeps a configured client configured. -/
theorem exec_of_usable (hsound : a.Sound id) (h : Configured calls a) {call : AgentCall}
    (husable : call.Usable a) : ∃ a', call.exec a = .ok a' ∧ Configured (calls ++ [call]) a' := by
  rcases exec_cases a call with heq | heq | ⟨hready, answer, hanswer, heq⟩
  · exact ⟨a, heq, h.append⟩
  · exact ⟨a.startThread, heq, h.append.startThread⟩
  · rcases configure_of_usable (husable hready answer hanswer) with hsame |
      ⟨rows, row, rfl, hmem, a', ha', hrow, hactive⟩
    · exact ⟨a, heq.trans hsame, h.append⟩
    · refine ⟨a', heq.trans ha', ⟨fun _ => ?_, fun hstarted => ?_⟩⟩
      · exact ⟨row, ⟨call, by simp, rows, hanswer, hmem⟩, hrow⟩
      · rw [hactive] at hstarted
        exact absurd (hsound.active hstarted) (by simp [hready])

/-- After a call that is not usable the client is ready and not configured, if it is there at all. -/
theorem usable_of_exec {a' : AgentSettings} (hsound : a.Sound id) {call : AgentCall}
    (hexec : call.exec a = .ok a') (h : Configured calls a') : call.Usable a := by
  intro hready answer hanswer
  by_contra hnot
  rw [exec_of_answer hready hanswer] at hexec
  rcases configure_of_not_usable hnot (hsound.poolFreq hready) with hcrash |
    ⟨other, hother, hready', hnone⟩
  · rw [hcrash] at hexec
    cases hexec
  · rw [hother] at hexec
    cases hexec
    obtain ⟨row, -, hrow⟩ := h.ready hready'
    have hsome := hrow.poolFreq
    rw [hnone] at hsome
    rw [← hsome.1] at hsome
    cases hsome.2

/-- In every run of calls, the client is configured whenever it is ready and nothing is read that is
not there, if and only if every call that asks for the configuration is given a usable answer. -/
theorem ready_configured_iff (id : ℕ) (calls : List AgentCall) :
    (Succeeds (calls.foldlM AgentCall.exec (.new id)) ∧
        ∀ before after a, calls = before ++ after →
          before.foldlM AgentCall.exec (.new id) = .ok a → Configured before a) ↔
      EachStep AgentCall.exec AgentCall.Usable (.new id) calls := by
  constructor
  · rintro ⟨⟨final, hfinal⟩, hall⟩ before call after a heq hrun
    rw [heq, foldlM_append_eq_ok] at hfinal
    obtain ⟨m, hm, hrest⟩ := hfinal
    rw [hrun] at hm
    cases hm
    obtain ⟨a', hexec, -⟩ := foldlM_cons_eq_ok.mp hrest
    apply usable_of_exec (sound_run hrun) hexec
    apply hall (before ++ [call]) after a'
    · rw [heq, List.append_assoc, List.singleton_append]
    · exact foldlM_append_eq_ok.mpr ⟨a, hrun, foldlM_cons_eq_ok.mpr ⟨a', hexec, rfl⟩⟩
  · intro h
    have hrun (before : List AgentCall) : ∀ after, calls = before ++ after →
        ∃ a, before.foldlM AgentCall.exec (.new id) = .ok a ∧ Configured before a := by
      induction before using List.reverseRecOn with
      | nil =>
          intro after _
          refine ⟨.new id, rfl, fun hready => ?_, fun hactive => ?_⟩
          · cases hready
          · cases hactive
      | append_singleton before call ih =>
          intro after heq
          have hsplit : calls = before ++ call :: after := by
            rw [heq, List.append_assoc, List.singleton_append]
          obtain ⟨a, ha, hconfigured⟩ := ih (call :: after) hsplit
          obtain ⟨a', hexec, hnext⟩ :=
            exec_of_usable (sound_run ha) hconfigured (h before call after a hsplit ha)
          refine ⟨a', ?_, hnext⟩
          exact foldlM_append_eq_ok.mpr ⟨a, ha, foldlM_cons_eq_ok.mpr ⟨a', hexec, rfl⟩⟩
    constructor
    · obtain ⟨a, ha, -⟩ := hrun calls [] (List.append_nil calls).symm
      exact ⟨a, ha⟩
    · intro before after a heq ha
      obtain ⟨a', ha', hconfigured⟩ := hrun before after heq
      rw [ha] at ha'
      cases ha'
      exact hconfigured

/-- The query for the configuration throws once. The client is ready, and its thread starts with an
empty address and no polling period. -/
theorem thread_without_configuration :
    [.init .connection .threw, .startThread].foldlM AgentCall.exec (.new 1) =
        .ok ⟨1, true, true, "", none, some ("", false)⟩ ∧
      ¬ Configured [.init .connection .threw, .startThread]
        ⟨1, true, true, "", none, some ("", false)⟩ :=
  ⟨rfl, fun hconfigured => (hconfigured.active rfl).1 rfl⟩

end run

end WatchedBack
