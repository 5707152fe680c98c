import WatchedBack.Library.Fallible
import WatchedBack.Library.Runs
import WatchedBack.Model.Startup

/-! # The steps of a start

The connections that are in use depend on the steps alone, and so does whether one waits. An
exception of the loop over the agents is caught, so the steps that are made are those before it and
the messages of the handler. -/

namespace WatchedBack

open Fallible

/-! ### Steps that go through -/

/-- The connections in use after a step. -/
def StartStep.count (n : ℕ) : StartStep → ℕ
  | .grab _ => n + 1
  | .release => n - 1
  | .message _ => n
  | .raise _ => n

/-- The step is neither an exception nor does it wait, where `n` connections are in use and the name
of the log file can be read or not. -/
def StartStep.Goes (level poolSize : ℕ) (file : Prop) (n : ℕ) : StartStep → Prop
  | .message l => l.number ≤ level → file
  | .grab _ => n ≤ poolSize
  | .release => True
  | .raise _ => False

/-- Every step goes through, from `n` connections in use. -/
def Smooth (level poolSize : ℕ) (file : Prop) (n : ℕ) (steps : List StartStep) : Prop :=
  Runs.EachStep StartStep.count (StartStep.Goes level poolSize file) n steps

/-- The name of the log file. -/
def logFile (data : Json) : Except Fault String := readSetting "log" "file" data >>= Json.asString

/-- The steps that the loop over the agents makes, with those of its handler. -/
def agentsRun (certificates : Bool) : List ClientStep → List StartStep
  | [] => []
  | .step (.raise badQuery) :: _ => catchMessages badQuery
  | .step x :: agents => x :: agentsRun certificates agents
  | .client :: agents =>
      if certificates then agentsRun certificates agents else catchMessages false

theorem smooth_append {level poolSize n : ℕ} {file : Prop} {xs ys : List StartStep} :
    Smooth level poolSize file n (xs ++ ys) ↔ Smooth level poolSize file n xs ∧
      Smooth level poolSize file (xs.foldl StartStep.count n) ys :=
  Runs.eachStep_append

section orThrow

variable {α : Type} {s : Connections} {x : Except Fault α} {a : α}

@[simp] theorem orThrow_ok (s : Connections) (a : α) : orThrow s (.ok a) = .ok a := rfl

theorem orThrow_eq_ok : orThrow s x = .ok a ↔ x = .ok a := by
  cases x with
  | error e => simp [orThrow]
  | ok b => simp

theorem succeeds_orThrow : Succeeds (orThrow s x) ↔ Succeeds x := by
  simp only [Succeeds, orThrow_eq_ok]

end orThrow

section steps

variable {c : Launch} {s t : Connections} {x : StartStep} {steps : List StartStep}

theorem succeeds_write_iff {level m : ℕ} {data : Json} :
    Succeeds (Log.write level data m) ↔ (m ≤ level → Succeeds (logFile data)) := by
  unfold Log.write
  split
  · next hlt => exact iff_of_true ⟨_, rfl⟩ fun hle => absurd hlt (Nat.not_lt.mpr hle)
  · next hle =>
    rw [forall_prop_of_true (Nat.le_of_not_lt hle), logFile]
    simp only [succeeds_bind, pure_eq_ok, succeeds_ok, and_true]
    rfl

theorem StartStep.exec_used (h : x.exec c s = .ok t) : t.used = StartStep.count s.used x := by
  cases x with
  | message l =>
      obtain ⟨_, -, h⟩ := bind_eq_ok.mp h
      cases h
      rfl
  | grab kept =>
      rw [StartStep.exec, dbPoolGrab] at h
      split at h
      · cases h
      · next hused =>
        split at hused
        · cases hused
        · cases hused
          split at h
          · cases h
            rfl
          · obtain ⟨_, -, h⟩ := bind_eq_ok.mp h
            cases h
            rfl
  | release =>
      rw [StartStep.exec] at h
      split at h
      · cases h
        rfl
      · next hused =>
        cases h
        simp only [StartStep.count]
        omega
  | raise badQuery => cases h

/-- Where connections can be made, a step goes through or not by the number in use. -/
theorem StartStep.succeeds_exec_iff (hdb : Succeeds (dbPoolCreate c.data)) :
    Succeeds (x.exec c s) ↔ x.Goes c.level c.poolSize (Succeeds (logFile c.data)) s.used := by
  cases x with
  | message l =>
      rw [StartStep.exec, succeeds_bind_pure, succeeds_orThrow, succeeds_write_iff]
      rfl
  | grab kept =>
      rw [StartStep.exec, dbPoolGrab, StartStep.Goes]
      by_cases hfull : c.poolSize < s.used
      · rw [if_pos hfull]
        exact iff_of_false (not_succeeds_error _) (Nat.not_le.mpr hfull)
      · rw [if_neg hfull]
        refine iff_of_true ?_ (Nat.le_of_not_lt hfull)
        dsimp only
        split
        · exact ⟨_, rfl⟩
        · exact succeeds_bind_pure.mpr (succeeds_orThrow.mpr hdb)
  | release =>
      rw [StartStep.exec]
      split
      · exact iff_of_true ⟨_, rfl⟩ trivial
      · exact iff_of_true ⟨_, rfl⟩ trivial
  | raise badQuery => exact iff_of_false (not_succeeds_error _) id

theorem succeeds_takeSteps_iff (hdb : Succeeds (dbPoolCreate c.data)) :
    Succeeds (takeSteps c s steps) ↔
      Smooth c.level c.poolSize (Succeeds (logFile c.data)) s.used steps := by
  unfold takeSteps Smooth
  induction steps generalizing s with
  | nil => exact iff_of_true ⟨s, rfl⟩ Runs.eachStep_nil
  | cons x steps ih =>
      rw [List.foldlM_cons, Runs.eachStep_cons, ← StartStep.succeeds_exec_iff hdb, succeeds_bind]
      constructor
      · rintro ⟨t, ht, hrest⟩
        exact ⟨⟨t, ht⟩, StartStep.exec_used ht ▸ ih.mp hrest⟩
      · rintro ⟨⟨t, ht⟩, hrest⟩
        exact ⟨t, ht, ih.mpr (StartStep.exec_used ht ▸ hrest)⟩

theorem takeSteps_used (h : takeSteps c s steps = .ok t) :
    t.used = steps.foldl StartStep.count s.used := by
  unfold takeSteps at h
  induction steps generalizing s with
  | nil =>
      cases h
      rfl
  | cons x steps ih =>
      obtain ⟨m, hm, hrest⟩ := foldlM_cons_eq_ok.mp h
      rw [ih hrest, StartStep.exec_used hm, List.foldl_cons]

theorem takeSteps_append (c : Launch) (s : Connections) (xs ys : List StartStep) :
    takeSteps c s (xs ++ ys) = takeSteps c s xs >>= fun t => takeSteps c t ys :=
  List.foldlM_append

theorem takeSteps_cons (c : Launch) (s : Connections) (x : StartStep) (xs : List StartStep) :
    takeSteps c s (x :: xs) = x.exec c s >>= fun t => takeSteps c t xs :=
  List.foldlM_cons

/-- Connections have been made only if they can be made. -/
def Connections.Made (s : Connections) (data : Json) : Prop :=
  0 < s.used + s.free → Succeeds (dbPoolCreate data)

theorem Connections.made_none (data : Json) : Connections.Made ⟨0, 0⟩ data :=
  fun h => absurd h (Nat.lt_irrefl 0)

/-- A connection that is grabbed was made then or before. -/
theorem Connections.Made.grab {kept : ℕ} (h : s.Made c.data)
    (hgrab : StartStep.exec c s (.grab kept) = .ok t) : Succeeds (dbPoolCreate c.data) := by
  rw [StartStep.exec] at hgrab
  split at hgrab
  · cases hgrab
  · split at hgrab
    · next hfree => exact h (by omega)
    · obtain ⟨u, hu, -⟩ := bind_eq_ok.mp hgrab
      exact ⟨u, orThrow_eq_ok.mp hu⟩

theorem Connections.Made.exec (h : s.Made c.data) (hx : x.exec c s = .ok t) : t.Made c.data := by
  cases x with
  | message l =>
      obtain ⟨_, -, hx⟩ := bind_eq_ok.mp hx
      cases hx
      exact h
  | grab kept => exact fun _ => h.grab hx
  | release =>
      rw [StartStep.exec] at hx
      split at hx
      · next hused => exact fun _ => h (by omega)
      · cases hx
        exact h
  | raise badQuery => cases hx

theorem Connections.Made.run (h : s.Made c.data) (hrun : takeSteps c s steps = .ok t) :
    t.Made c.data :=
  foldlM_invariant (fun u : Connections => u.Made c.data) (fun _ _ _ _ hu hx => hu.exec hx) h hrun

theorem LogLevel.one_le_number (l : LogLevel) : 1 ≤ l.number := by
  cases l <;> decide

/-- Where a message cannot be written, neither can the first of the handler. -/
theorem not_succeeds_catch {badQuery : Bool} {l : LogLevel}
    (h : ¬ Succeeds (Log.write c.level c.data l.number)) :
    ¬ Succeeds (takeSteps c s (catchMessages badQuery)) := by
  rw [succeeds_write_iff, Classical.not_imp] at h
  have herror : ¬ Succeeds (StartStep.exec c s (.message .error)) := by
    rw [StartStep.exec, succeeds_bind_pure, succeeds_orThrow, succeeds_write_iff]
    exact fun hfile => h.2 (hfile (l.one_le_number.trans h.1))
  rintro ⟨t, ht⟩
  obtain ⟨m, hm, -⟩ := foldlM_cons_eq_ok.mp ht
  exact herror ⟨m, hm⟩

/-- A step other than an exception fails in spite of the handler. -/
theorem StartStep.not_caught (hdb : Succeeds (dbPoolCreate c.data)) {badQuery : Bool}
    (h : x.exec c s = .error (.threw badQuery t)) (hx : ∀ b, x ≠ .raise b) :
    ¬ Succeeds (takeSteps c t (catchMessages badQuery)) := by
  cases x with
  | message l =>
      apply not_succeeds_catch (l := l)
      rintro ⟨u, hu⟩
      rw [StartStep.exec, hu] at h
      cases h
  | grab kept =>
      obtain ⟨u, hu⟩ := hdb
      rw [StartStep.exec] at h
      split at h
      · cases h
      · split at h
        · cases h
        · rw [hu] at h
          cases h
  | release =>
      rw [StartStep.exec] at h
      split at h
      · cases h
      · cases h
  | raise b => exact absurd rfl (hx b)

/-- The loop over the agents does what the steps do that it makes. -/
theorem initClients_eq_ok_iff {certificates : Bool} (hdb : Succeeds (dbPoolCreate c.data))
    (hclient : Succeeds (HttpClient.make c.data) ↔ certificates = true) {agents : List ClientStep} :
    initClients c s agents = .ok t ↔ takeSteps c s (agentsRun certificates agents) = .ok t := by
  unfold initClients
  induction agents generalizing s with
  | nil => rfl
  | cons a agents ih =>
      rw [List.foldlM_cons]
      cases a with
      | client =>
          cases hmake : HttpClient.make c.data with
          | error e =>
              have hno : certificates = false := by
                rw [← Bool.not_eq_true, ← hclient, hmake]
                exact not_succeeds_error e
              rw [agentsRun, hno, if_neg Bool.false_ne_true, ClientStep.exec, hmake]
              rfl
          | ok u =>
              have hyes : certificates = true := hclient.mp ⟨u, hmake⟩
              rw [agentsRun, if_pos hyes, ← ih, ClientStep.exec, hmake]
              rfl
      | step x =>
          by_cases hraise : ∃ b, x = .raise b
          · obtain ⟨b, rfl⟩ := hraise
            rfl
          · have hx : ∀ b, x ≠ .raise b := fun b heq => hraise ⟨b, heq⟩
            have hrun : agentsRun certificates (.step x :: agents) =
                x :: agentsRun certificates agents := by
              cases x with
              | raise b => exact absurd rfl (hx b)
              | _ => rfl
            rw [hrun, takeSteps, List.foldlM_cons, ClientStep.exec]
            cases hexec : x.exec c s with
            | ok m => exact ih
            | error ending =>
                refine iff_of_false (fun ht => ?_) (by simp)
                cases ending with
                | waiting => cases ht
                | threw badQuery u => exact StartStep.not_caught hdb hexec hx ⟨t, ht⟩

end steps

end WatchedBack
