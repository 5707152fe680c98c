import WatchedBack.Verification.Events.Steps

/-! Which lines `parse` handles without a fault. -/

namespace WatchedBack

open Fallible

namespace Json

/-- A value whose members can be read. -/
def IsContainer : Json → Prop
  | null => True
  | obj _ => True
  | _ => False

/-- The member can be read, and is a number, a boolean or null. -/
def Convertible (line : Json) (p : String) : Prop :=
  ∃ v, line.member p = .ok v ∧ Succeeds v.asDouble

/-- Every member that can be asked for is a number, a boolean or null. -/
def Numeric (line : Json) : Prop := ∀ p, line.Convertible p

/-- A sample: a null or an object whose members are numbers, booleans or nulls. -/
def IsSample : Json → Prop
  | null => True
  | obj members => ∀ p ∈ members, Succeeds p.2.asDouble
  | _ => False

variable {line v : Json} {p : String}

theorem member_succeeds_iff : Succeeds (line.member p) ↔ line.IsContainer := by
  cases line <;> simp [member, IsContainer]

theorem asFloat_succeeds_iff : Succeeds v.asFloat ↔ Succeeds v.asDouble := by
  cases v <;> simp [asFloat, asDouble]

theorem Numeric.isContainer (h : line.Numeric) : line.IsContainer := by
  obtain ⟨v, hv, -⟩ := h ""
  exact member_succeeds_iff.mp ⟨v, hv⟩

theorem IsSample.numeric (h : line.IsSample) : line.Numeric := by
  intro p
  cases line with
  | null => exact ⟨null, rfl, by simp [asDouble]⟩
  | obj members =>
      refine ⟨_, rfl, ?_⟩
      cases hl : members.lookup p with
      | none => simp [asDouble]
      | some v =>
          obtain ⟨l₁, l₂, rfl, -⟩ := List.lookup_eq_some_iff.mp hl
          exact h (p, v) (by simp)
  | _ => exact h.elim

theorem timestamp_succeeds_iff :
    Succeeds (line.member p >>= asFloat) ↔ line.Convertible p := by
  rw [succeeds_bind]
  simp only [asFloat_succeeds_iff, Convertible]

end Json

/-- The condition of a rule can be evaluated on a line. -/
def ResEvent.Readable (e : ResEvent) (line : Json) : Prop :=
  line.IsContainer ∧ (e.known → ∀ v, line.carried e.property = some v → Succeeds v.asDouble)

theorem ResEvent.readable_of_numeric (e : ResEvent) {line : Json} (h : line.Numeric) :
    e.Readable line := by
  refine ⟨h.isContainer, fun _ v hv => ?_⟩
  obtain ⟨w, hw, hs⟩ := h e.property
  rw [Json.carried_of_member hw] at hv
  split at hv
  · cases hv
  · cases hv
    exact hs

section steps

variable {c : RessourceClient} {answers : ℕ → Answer} {line : Json} {s : ParseState}

theorem begins_succeeds_iff {e : ResEvent} {v : Json} :
    Succeeds (e.begins v) ↔ (e.known → Succeeds v.asDouble) := by
  by_cases hk : e.known
  · rw [ResEvent.begins_of_known hk]
    cases v.asDouble <;> simp [Except.map, hk]
  · simp [ResEvent.begins_of_not_known hk, hk]

theorem ends_succeeds_iff {e : ResEvent} {v : Json} :
    Succeeds (e.ends v) ↔ (e.known → Succeeds v.asDouble) := by
  by_cases hk : e.known
  · rw [ResEvent.ends_of_known hk]
    cases v.asDouble <;> simp [Except.map, hk]
  · simp [ResEvent.ends_of_not_known hk, hk]

/-- A condition that triggers has converted the value. -/
theorem succeeds_asDouble_of_begins {e : ResEvent} {v : Json} (h : e.begins v = .ok true) :
    Succeeds v.asDouble := by
  by_cases hk : e.known
  · exact begins_succeeds_iff.mp ⟨true, h⟩ hk
  · simp [ResEvent.begins_of_not_known hk] at h

/-- The guard that both loops put around a condition. -/
theorem guarded_succeeds_iff {p : String} {f : Json → Except Fault ParseState} :
    Succeeds (do if ← line.carries p then let v ← line.member p; f v else return s) ↔
      line.IsContainer ∧ ∀ v, line.carried p = some v → Succeeds (f v) := by
  by_cases hcont : line.IsContainer
  · obtain ⟨v, hm⟩ := Json.member_succeeds_iff.mpr hcont
    have hc : line.carries p = .ok !v.isNull := by
      rw [Json.carries_eq, hm]
      rfl
    cases hnull : v.isNull <;>
      simp [hc, hm, hnull, hcont, Json.carried_of_member hm]
  · refine iff_of_false ?_ fun h => hcont h.1
    intro h
    obtain ⟨carried, hc, -⟩ := succeeds_bind.mp h
    rw [Json.carries_eq] at hc
    cases hm : line.member p with
    | error f => simp [hm, Except.map] at hc
    | ok v => exact hcont (Json.member_succeeds_iff.mp ⟨v, hm⟩)

theorem carries_of_carried {p : String} {v : Json} (h : line.carried p = some v) :
    line.carries p = .ok true ∧ line.member p = .ok v := by
  cases hm : line.member p with
  | error f => simp [Json.carried, hm] at h
  | ok w =>
      rw [Json.carried_of_member hm] at h
      split at h
      · cases h
      · rename_i hnull
        cases h
        exact ⟨by rw [Json.carries_eq, hm]; simp [Except.map, hnull], rfl⟩

theorem openEvent_succeeds_iff {e : ResEvent} :
    Succeeds (openEvent c answers line s e) ↔
      e.Readable line ∧ (e.verdict line = some true → findEvent s.currentEvents e = 0 →
        line.Convertible "timestamp") := by
  unfold openEvent openEventWith ParseState.alert
  rw [guarded_succeeds_iff, ResEvent.Readable, and_assoc]
  refine and_congr_right fun _ => ?_
  cases hcarried : line.carried e.property with
  | none => simp [ResEvent.verdict, Json.reading, hcarried]
  | some v =>
      obtain ⟨hc, hm⟩ := carries_of_carried hcarried
      simp only [Option.some.injEq, forall_eq', ← begins_succeeds_iff]
      cases hb : e.begins v with
      | error f => simp
      | ok trig =>
          have hv := ResEvent.begins_iff_verdict hc hm hb
          cases trig with
          | false =>
              have hv' : e.verdict line ≠ some true := by simpa using hv
              simp [hv']
          | true =>
              obtain ⟨x, hx⟩ := succeeds_asDouble_of_begins hb
              obtain ⟨y, hy⟩ := Json.asFloat_succeeds_iff.mpr ⟨x, hx⟩
              have hv' : e.verdict line = some true := hv.mp rfl
              by_cases hf : 0 < findEvent s.currentEvents e
              · simp [hf, hy, Nat.ne_of_gt hf]
              · have hf' : findEvent s.currentEvents e = 0 := by omega
                simp only [hf', hx, hy, hv', ok_bind, if_true, lt_self_iff_false, if_false,
                  pure_eq_ok, succeeds_ok, true_and, forall_const]
                rw [← Json.timestamp_succeeds_iff]
                simp only [succeeds_bind, succeeds_ok, and_true]
                rfl

theorem closeEvent_succeeds_iff {entry : ℕ × ResEvent} :
    Succeeds (closeEvent c answers line s entry) ↔
      entry.2.Readable line ∧ (entry.2.verdict line = some false →
        line.Convertible "timestamp") := by
  unfold closeEvent
  rw [guarded_succeeds_iff, ResEvent.Readable, and_assoc]
  refine and_congr_right fun _ => ?_
  cases hcarried : line.carried entry.2.property with
  | none => simp [ResEvent.verdict, Json.reading, hcarried]
  | some v =>
      obtain ⟨hc, hm⟩ := carries_of_carried hcarried
      simp only [Option.some.injEq, forall_eq', ← ends_succeeds_iff]
      cases hb : entry.2.ends v with
      | error f => simp
      | ok trig =>
          have hv := ResEvent.ends_iff_verdict hc hm hb
          cases trig with
          | false =>
              have hv' : entry.2.verdict line ≠ some false := by simpa using hv
              simp [hv']
          | true =>
              have hv' : entry.2.verdict line = some false := hv.mp rfl
              simp only [hv', ok_bind, if_true, pure_eq_ok, succeeds_ok, true_and, forall_const]
              rw [← Json.timestamp_succeeds_iff]
              simp only [succeeds_bind, succeeds_ok, and_true]
              rfl

theorem mapM_succeeds_iff {α β : Type} {f : α → Except Fault β} {xs : List α} :
    Succeeds (xs.mapM f) ↔ ∀ x ∈ xs, Succeeds (f x) := by
  induction xs with
  | nil => simp
  | cons x xs ih =>
      rw [List.mapM_cons, succeeds_bind]
      simp only [succeeds_bind, pure_eq_ok, succeeds_ok, and_true, List.forall_mem_cons, ← ih]
      constructor
      · rintro ⟨a, ha, b, hb⟩
        exact ⟨⟨a, ha⟩, b, hb⟩
      · rintro ⟨⟨a, ha⟩, b, hb⟩
        exact ⟨a, ha, b, hb⟩

theorem storeSample_succeeds_iff :
    Succeeds (storeSample c line s) ↔ ∀ p ∈ c.definition.entries, line.Convertible p.1 := by
  unfold storeSample
  rw [succeeds_bind]
  simp only [pure_eq_ok, succeeds_ok, and_true]
  change Succeeds (c.definition.entries.mapM _) ↔ _
  rw [mapM_succeeds_iff]
  refine forall₂_congr fun p _ => ?_
  rw [← Json.timestamp_succeeds_iff]
  simp only [succeeds_bind, succeeds_ok, and_true]
  rfl

/-- A line whose members are numbers, booleans and nulls is handled in every state. -/
theorem parseLine_of_numeric (h : line.Numeric) : Succeeds (parseLine c answers line s) := by
  unfold parseLine parseLineWith
  refine succeeds_bind_of (succeeds_foldlM (fun t e _ => ?_) s) fun opened _ => ?_
  · exact openEvent_succeeds_iff.mpr ⟨e.readable_of_numeric h, fun _ _ => h _⟩
  · refine succeeds_bind_of (succeeds_foldlM (fun t entry _ => ?_) opened) fun closed _ => ?_
    · exact closeEvent_succeeds_iff.mpr ⟨entry.2.readable_of_numeric h, fun _ => h _⟩
    · exact storeSample_succeeds_iff.mpr fun p _ => h p.1

theorem parseLines_of_numeric {lines : List Json} (h : ∀ l ∈ lines, l.Numeric) :
    Succeeds (parseLines c answers s lines) :=
  succeeds_foldlM (fun _ l hl => parseLine_of_numeric (h l hl)) s

theorem parseLines_of_isSample {lines : List Json} (h : ∀ l ∈ lines, l.IsSample) :
    Succeeds (parseLines c answers s lines) :=
  parseLines_of_numeric fun l hl => (h l hl).numeric

end steps

end WatchedBack
