import WatchedBack.Model.Ressource
import WatchedBack.Library.Fallible

/-! What one iteration of the opening loop and of the closing loop can do. -/

namespace WatchedBack

open Fallible

/-! ### Readings and verdicts -/

/-- The non-null value that a line carries under a property. -/
def Json.carried (line : Json) (property : String) : Option Json :=
  match line.member property with
  | .ok v => if v.isNull then none else some v
  | .error _ => none

/-- The number that a line carries under a property. -/
def Json.reading (line : Json) (property : String) : Option ℚ :=
  (line.carried property).bind fun v => v.asDouble.toOption

namespace ResEvent

/-- The operators that `parse` distinguishes. -/
def known (e : ResEvent) : Prop := e.oper = '<' ∨ e.oper = '>' ∨ e.oper = '='

instance (e : ResEvent) : Decidable e.known := inferInstanceAs (Decidable (_ ∨ _ ∨ _))

/-- The value satisfies the rule. -/
def satisfiedBy (e : ResEvent) (x : ℚ) : Bool :=
  match e.oper with
  | '<' => x < e.value
  | '>' => x > e.value
  | '=' => x = e.value
  | _ => false

/-- What a line says about a rule: whether the value that it carries satisfies the rule. -/
def verdict (e : ResEvent) (line : Json) : Option Bool :=
  if e.known then (line.reading e.property).map e.satisfiedBy else none

end ResEvent

theorem Json.carried_of_member {line v : Json} {p : String} (hm : line.member p = .ok v) :
    line.carried p = if v.isNull then none else some v := by
  simp only [Json.carried, hm]

/-- A line carries a property when reading the member succeeds and gives no null. -/
theorem Json.carries_eq (line : Json) (p : String) :
    line.carries p = (line.member p).map fun v => !v.isNull := by
  cases line with
  | null => rfl
  | obj members =>
      have hcases : members.lookup p = none ∨ ∃ v, members.lookup p = some v := by
        cases members.lookup p <;> simp
      rcases hcases with h | ⟨v, h⟩ <;>
        simp [Json.carries, Json.isMember, Json.member, h, Except.map, Json.isNull]
  | _ => rfl

namespace ResEvent

variable {e : ResEvent} {line v : Json} {x : ℚ} {b : Bool}

theorem verdict_of_not_carries (h : line.carries e.property = .ok false) :
    e.verdict line = none := by
  rw [Json.carries_eq] at h
  cases hm : line.member e.property with
  | error f => simp [hm, Except.map] at h
  | ok v =>
      have hv : v.isNull = true := by simpa [hm, Except.map] using h
      simp [verdict, Json.reading, Json.carried_of_member hm, hv]

theorem reading_of_carries (h : line.carries e.property = .ok true)
    (hm : line.member e.property = .ok v) : line.reading e.property = v.asDouble.toOption := by
  rw [Json.carries_eq, hm] at h
  have hv : v.isNull = false := by simpa [Except.map] using h
  simp [Json.reading, Json.carried_of_member hm, hv]

/-- A rule with a known operator converts the value and compares it; any other does neither. -/
theorem begins_of_known (hk : e.known) :
    e.begins v = v.asDouble.map e.satisfiedBy := by
  obtain ⟨t, p, op, w⟩ := e
  rcases hk with rfl | rfl | rfl <;>
    cases hv : v.asDouble <;> simp [begins, satisfiedBy, Except.map, hv]

theorem ends_of_known (hk : e.known) :
    e.ends v = v.asDouble.map fun x => !e.satisfiedBy x := by
  obtain ⟨t, p, op, w⟩ := e
  rcases hk with rfl | rfl | rfl <;>
    cases hv : v.asDouble <;> simp [ends, satisfiedBy, Except.map, hv, ← not_lt]

theorem begins_of_not_known (hk : ¬ e.known) : e.begins v = .ok false := by
  unfold known at hk
  unfold begins
  split <;> simp_all

theorem ends_of_not_known (hk : ¬ e.known) : e.ends v = .ok false := by
  unfold known at hk
  unfold ends
  split <;> simp_all

/-- The opening loop acts on a rule exactly when the line satisfies it. -/
theorem begins_iff_verdict (hc : line.carries e.property = .ok true)
    (hm : line.member e.property = .ok v) (hb : e.begins v = .ok b) :
    b = true ↔ e.verdict line = some true := by
  by_cases hk : e.known
  · rw [begins_of_known hk] at hb
    rw [verdict, if_pos hk, reading_of_carries hc hm]
    cases hv : v.asDouble with
    | error f => simp [hv, Except.map] at hb
    | ok x =>
        obtain rfl : e.satisfiedBy x = b := by simpa [hv, Except.map] using hb
        simp [Except.toOption]
  · rw [begins_of_not_known hk] at hb
    cases hb
    simp [verdict, hk]

/-- The closing loop acts on an event exactly when the line carries its property and
does not satisfy its rule: the two conditions are complements. -/
theorem ends_iff_verdict (hc : line.carries e.property = .ok true)
    (hm : line.member e.property = .ok v) (hb : e.ends v = .ok b) :
    b = true ↔ e.verdict line = some false := by
  by_cases hk : e.known
  · rw [ends_of_known hk] at hb
    rw [verdict, if_pos hk, reading_of_carries hc hm]
    cases hv : v.asDouble with
    | error f => simp [hv, Except.map] at hb
    | ok x =>
        obtain rfl : (!e.satisfiedBy x) = b := by simpa [hv, Except.map] using hb
        simp [Except.toOption]
  · rw [ends_of_not_known hk] at hb
    cases hb
    simp [verdict, hk]

end ResEvent

/-! ### The search -/

theorem foldl_search (e : ResEvent) (entries : List (ℕ × ResEvent)) (found : ℕ) :
    entries.foldl (fun found entry => if e = entry.2 then entry.1 else found) found = found ∨
      (entries.foldl (fun found entry => if e = entry.2 then entry.1 else found) found, e) ∈
        entries := by
  induction entries generalizing found with
  | nil => exact Or.inl rfl
  | cons entry rest ih =>
      obtain ⟨id, f⟩ := entry
      rw [List.foldl_cons]
      by_cases h : e = f
      · subst h
        rw [if_pos rfl]
        rcases ih id with hr | hr
        · rw [hr]
          exact Or.inr List.mem_cons_self
        · exact Or.inr (List.mem_cons_of_mem _ hr)
      · rw [if_neg h]
        rcases ih found with hr | hr
        · exact Or.inl hr
        · exact Or.inr (List.mem_cons_of_mem _ hr)

/-- An id that the search returns holds the event. -/
theorem findEvent_spec {m : EventMap} {e : ResEvent} (h : 0 < findEvent m e) :
    m[findEvent m e]? = some e := by
  rcases foldl_search e m.toList 0 with hr | hr
  · exact absurd hr (by unfold findEvent at h; omega)
  · exact Std.ExtTreeMap.mem_toList_iff_getElem?_eq_some.mp hr

/-- Where the search must visit an equal event, it does not return its initial value. -/
theorem foldl_search_ne_zero {e : ResEvent} {entries : List (ℕ × ResEvent)} {found : ℕ}
    (hids : ∀ entry ∈ entries, entry.1 ≠ 0) (h : found ≠ 0 ∨ ∃ id, (id, e) ∈ entries) :
    entries.foldl (fun found entry => if e = entry.2 then entry.1 else found) found ≠ 0 := by
  induction entries generalizing found with
  | nil => simpa using h
  | cons entry rest ih =>
      rw [List.foldl_cons]
      refine ih (fun x hx => hids x (List.mem_cons_of_mem _ hx)) ?_
      by_cases he : e = entry.2
      · rw [if_pos he]
        exact Or.inl (hids entry List.mem_cons_self)
      · rw [if_neg he]
        rcases h with h | ⟨id, h⟩
        · exact Or.inl h
        · rcases List.mem_cons.mp h with rfl | h
          · exact absurd rfl he
          · exact Or.inr ⟨id, h⟩

/-- With no event under id 0, the search returns 0 only when no equal event is open. -/
theorem absent_of_findEvent_eq_zero {m : EventMap} {e : ResEvent} (h0 : 0 ∉ m)
    (h : findEvent m e = 0) : ∀ k : ℕ, m[k]? ≠ some e := by
  intro k hk
  refine foldl_search_ne_zero ?_ (Or.inr ⟨k, ?_⟩) h
  · intro entry hentry h0'
    have hlook := Std.ExtTreeMap.mem_toList_iff_getElem?_eq_some.mp hentry
    rw [h0'] at hlook
    exact h0 (Std.ExtTreeMap.mem_iff_isSome_getElem?.mpr (by simp [hlook]))
  · exact Std.ExtTreeMap.mem_toList_iff_getElem?_eq_some.mpr hk

/-! ### One iteration -/

section steps

variable {c : RessourceClient} {answers : ℕ → Answer} {line : Json} {s s' : ParseState}

/-- Everything that one rule of the opening loop can do. -/
theorem openEvent_cases {e : ResEvent} (h : openEvent c answers line s e = .ok s') :
    (e.verdict line ≠ some true ∧ s' = s) ∨
    (e.verdict line = some true ∧ 0 < findEvent s.currentEvents e ∧ ∃ current,
      s' = (s.exec c answers (.setCurrentValue (findEvent s.currentEvents e) current)).1) ∨
    (e.verdict line = some true ∧ findEvent s.currentEvents e = 0 ∧ ∃ ts current value,
      s' = { (s.exec c answers (.insertEvent c.hostId c.resId ts e current)).1 with
        currentEvents := s.currentEvents.insert
          (s.exec c answers (.insertEvent c.hostId c.resId ts e current)).2 e
        alerts := s.alerts ++ [⟨c.isService, c.hostId, c.resId, e, value⟩] }) := by
  unfold openEvent openEventWith at h
  obtain ⟨carried, hc, h⟩ := bind_eq_ok.mp h
  cases carried with
  | false =>
      cases h
      exact Or.inl ⟨by simp [ResEvent.verdict_of_not_carries hc], rfl⟩
  | true =>
      obtain ⟨v, hm, h⟩ := bind_eq_ok.mp h
      obtain ⟨trig, hb, h⟩ := bind_eq_ok.mp h
      have hv := ResEvent.begins_iff_verdict hc hm hb
      cases trig with
      | false =>
          cases h
          exact Or.inl ⟨by simpa using hv, rfl⟩
      | true =>
          have hv' := hv.mp rfl
          by_cases hf : 0 < findEvent s.currentEvents e
          · simp only [if_true, hf] at h
            obtain ⟨current, -, h⟩ := bind_eq_ok.mp h
            cases h
            exact Or.inr (Or.inl ⟨hv', hf, current, rfl⟩)
          · simp only [if_true, hf, if_false] at h
            obtain ⟨tsv, -, h⟩ := bind_eq_ok.mp h
            obtain ⟨ts, -, h⟩ := bind_eq_ok.mp h
            obtain ⟨current, -, h⟩ := bind_eq_ok.mp h
            obtain ⟨value, -, h⟩ := bind_eq_ok.mp h
            cases h
            exact Or.inr (Or.inr ⟨hv', by omega, ts, current, value, rfl⟩)

/-- Everything that one event of the closing loop can do. -/
theorem closeEvent_cases {entry : ℕ × ResEvent}
    (h : closeEvent c answers line s entry = .ok s') :
    (entry.2.verdict line ≠ some false ∧ s' = s) ∨
    (entry.2.verdict line = some false ∧ ∃ ts,
      s' = { (s.exec c answers (.setEndTime entry.1 ts)).1 with
        currentEvents := s.currentEvents.erase entry.1 }) := by
  unfold closeEvent at h
  obtain ⟨carried, hc, h⟩ := bind_eq_ok.mp h
  cases carried with
  | false =>
      cases h
      exact Or.inl ⟨by simp [ResEvent.verdict_of_not_carries hc], rfl⟩
  | true =>
      obtain ⟨v, hm, h⟩ := bind_eq_ok.mp h
      obtain ⟨trig, hb, h⟩ := bind_eq_ok.mp h
      have hv := ResEvent.ends_iff_verdict hc hm hb
      cases trig with
      | false =>
          cases h
          exact Or.inl ⟨by simpa using hv, rfl⟩
      | true =>
          simp only [if_true] at h
          obtain ⟨tsv, -, h⟩ := bind_eq_ok.mp h
          obtain ⟨ts, -, h⟩ := bind_eq_ok.mp h
          cases h
          exact Or.inr ⟨hv.mp rfl, ts, rfl⟩

/-- Storing the sample changes nothing that concerns events. -/
theorem storeSample_cases (h : storeSample c line s = .ok s') :
    ∃ stmt, s' = { s with inserts := s.inserts ++ [stmt] } := by
  obtain ⟨defaults, -, h⟩ := bind_eq_ok.mp h
  cases h
  exact ⟨_, rfl⟩

/-- A line is the opening loop, the closing loop over the events open then, and the insert. -/
theorem parseLine_cases (h : parseLine c answers line s = .ok s') :
    ∃ opened closed, c.eventFactory.foldlM (openEvent c answers line) s = .ok opened ∧
      opened.currentEvents.toList.foldlM (closeEvent c answers line) opened = .ok closed ∧
      ∃ stmt, s' = { closed with inserts := closed.inserts ++ [stmt] } := by
  obtain ⟨opened, ho, h⟩ := bind_eq_ok.mp h
  obtain ⟨closed, hcl, h⟩ := bind_eq_ok.mp h
  exact ⟨opened, closed, ho, hcl, storeSample_cases h⟩

/-- What every iteration of both loops keeps, and does not depend on the samples stored,
is kept by a line. -/
theorem parseLine_invariant (P : ParseState → Prop)
    (hopen : ∀ t t' e, P t → openEvent c answers line t e = .ok t' → P t')
    (hclose : ∀ t t' entry, P t → closeEvent c answers line t entry = .ok t' → P t')
    (hstore : ∀ t inserts, P t → P { t with inserts := inserts })
    (hs : P s) (h : parseLine c answers line s = .ok s') : P s' := by
  obtain ⟨opened, closed, ho, hcl, stmt, rfl⟩ := parseLine_cases h
  have h₁ : P opened := foldlM_invariant P (fun t t' e _ => hopen t t' e) hs ho
  have h₂ : P closed := foldlM_invariant P (fun t t' entry _ => hclose t t' entry) h₁ hcl
  exact hstore closed _ h₂

end steps

end WatchedBack
