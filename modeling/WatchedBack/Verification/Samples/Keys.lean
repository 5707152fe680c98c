import WatchedBack.Verification.Events.Faults

/-! # Keys of the stored samples

The primary key of a `d$` table is the owner, the resource and the timestamp. The
timestamp passes through a `float`, so close samples meet under one key. -/

namespace WatchedBack

open Fallible Rounding

/-- The primary key of the row that the statement writes. -/
def SampleInsert.key (i : SampleInsert) : ℕ × ℕ × Option ℚ :=
  (i.ownerId, i.resId, (i.values.lookup "timestamp").join)

/-! ### Binding a template -/

theorem lookup_map_self {β : Type} (f : String → β) (keys : List String) (k : String) :
    (keys.map fun x => (x, f x)).lookup k = if k ∈ keys then some (f k) else none := by
  induction keys with
  | nil => rfl
  | cons x xs ih =>
      by_cases h : k = x
      · simp [h]
      · simp [h, ih, List.lookup_cons, beq_false_of_ne h]

/-- Each column of the definition is given the value bound to its name. -/
theorem values_bind_updateDefs (c : RessourceClient) (definition : Json)
    (defaults : List (String × ℚ)) :
    ((c.updateDefs definition).baseInsert.bind defaults).values =
      (definition.entries.map Prod.fst).map fun k => (k, defaults.lookup k) := by
  have hzip : ∀ (keys : List String) (n : ℕ),
      keys.zip ((keys.zipIdx n).map fun p => defaults.lookup p.1) =
        keys.map fun k => (k, defaults.lookup k) := by
    intro keys
    induction keys with
    | nil => simp
    | cons k keys ih => simp [List.zipIdx_cons, ih]
  have h := hzip (definition.entries.map Prod.fst) 0
  simpa [RessourceClient.updateDefs, InsertTemplate.bind, Function.comp_def] using h

/-- The loop over the definition binds every name to the number that the line has for it. -/
theorem defaults_lookup {line : Json} {entries : List (String × Json)}
    {defaults : List (String × ℚ)} {k : String}
    (h : (entries.mapM fun (k, _) => do return (k, ← (← line.member k).asFloat)) =
      Except.ok defaults) (hk : k ∈ entries.map Prod.fst) :
    ∃ v x, line.member k = .ok v ∧ v.asFloat = .ok x ∧ defaults.lookup k = some x := by
  induction entries generalizing defaults with
  | nil => cases hk
  | cons p rest ih =>
      rw [List.mapM_cons] at h
      obtain ⟨q, hq, h⟩ := bind_eq_ok.mp h
      obtain ⟨v, hv, hq⟩ := bind_eq_ok.mp hq
      obtain ⟨x, hx, hq⟩ := bind_eq_ok.mp hq
      obtain ⟨tail, htail, h⟩ := bind_eq_ok.mp h
      cases hq
      cases h
      by_cases hp : k = p.1
      · subst hp
        exact ⟨v, x, hv, hx, by simp⟩
      · rw [List.lookup_cons, beq_false_of_ne hp]
        refine ih htail ?_
        rw [List.map_cons] at hk
        exact (List.mem_cons.mp hk).resolve_left hp

section run

variable {c : RessourceClient} {definition : Json} {answers : ℕ → Answer} {line : Json}
  {s s' : ParseState} {t : ℕ}

/-- The timestamp column of a sample taken at `t` milliseconds. -/
def stamp (definition : Json) (t : ℕ) : Option ℚ :=
  if "timestamp" ∈ definition.entries.map Prod.fst then some (roundBits 24 t) else none

theorem storeSample_inserts (ht : line.member "timestamp" = .ok (.int t))
    (h : storeSample (c.updateDefs definition) line s = .ok s') :
    ∃ stmt, stmt.key = (c.hostId, c.resId, stamp definition t) ∧
      s'.inserts = s.inserts ++ [stmt] := by
  obtain ⟨defaults, hd, h⟩ := bind_eq_ok.mp h
  cases h
  refine ⟨_, ?_, rfl⟩
  have hkey : ∀ stmt : SampleInsert, stmt.ownerId = c.hostId → stmt.resId = c.resId →
      (stmt.values.lookup "timestamp").join = stamp definition t →
      stmt.key = (c.hostId, c.resId, stamp definition t) := by
    rintro stmt h₁ h₂ h₃
    rw [SampleInsert.key, h₁, h₂, h₃]
  refine hkey _ rfl rfl ?_
  rw [values_bind_updateDefs, lookup_map_self, stamp]
  split
  · next hmem =>
      obtain ⟨v, x, hv, hx, hlook⟩ := defaults_lookup hd hmem
      rw [ht] at hv
      cases hv
      cases hx
      rw [hlook]
      simp
  · rfl

theorem openEvent_inserts (e : ResEvent) (h : openEvent c answers line s e = .ok s') :
    s'.inserts = s.inserts := by
  rcases openEvent_cases h with ⟨-, rfl⟩ | ⟨-, -, current, rfl⟩ | ⟨-, -, ts, current, value, rfl⟩ <;>
    rfl

theorem closeEvent_inserts {entry : ℕ × ResEvent} (h : closeEvent c answers line s entry = .ok s') :
    s'.inserts = s.inserts := by
  rcases closeEvent_cases h with ⟨-, rfl⟩ | ⟨-, ts, rfl⟩ <;> rfl

/-- The events of a line leave the inserts as they are. -/
theorem storeSample_of_parseLine (h : parseLine c answers line s = .ok s') :
    ∃ closed, closed.inserts = s.inserts ∧ storeSample c line closed = .ok s' := by
  obtain ⟨opened, ho, h⟩ := bind_eq_ok.mp h
  obtain ⟨closed, hcl, h⟩ := bind_eq_ok.mp h
  have h₁ : opened.inserts = s.inserts :=
    foldlM_invariant (fun m => m.inserts = s.inserts)
      (fun _ _ e _ hm hstep => (openEvent_inserts e hstep).trans hm) rfl ho
  have h₂ : closed.inserts = s.inserts :=
    foldlM_invariant (fun m => m.inserts = s.inserts)
      (fun _ _ _ _ hm hstep => (closeEvent_inserts hstep).trans hm) h₁ hcl
  exact ⟨closed, h₂, h⟩

/-- A line adds one insert, under the key of its timestamp. -/
theorem parseLine_inserts (ht : line.member "timestamp" = .ok (.int t))
    (h : parseLine (c.updateDefs definition) answers line s = .ok s') :
    ∃ stmt, stmt.key = (c.hostId, c.resId, stamp definition t) ∧
      s'.inserts = s.inserts ++ [stmt] := by
  obtain ⟨closed, hinserts, h⟩ := storeSample_of_parseLine h
  rw [← hinserts]
  exact storeSample_inserts ht h

/-- A run adds one insert for each line, in their order. -/
theorem parseLines_inserts {lines : List Json} {times : List ℕ}
    (ht : lines.map (fun l => l.member "timestamp") = times.map fun t : ℕ => .ok (.int t))
    (h : parseLines (c.updateDefs definition) answers s lines = .ok s') :
    ∃ stmts, s'.inserts = s.inserts ++ stmts ∧
      stmts.map SampleInsert.key =
        times.map fun t => (c.hostId, c.resId, stamp definition t) := by
  induction lines generalizing s times with
  | nil =>
      cases h
      obtain rfl : times = [] := by simpa using ht.symm
      exact ⟨[], by simp, rfl⟩
  | cons line rest ih =>
      cases times with
      | nil => simp at ht
      | cons t times =>
          obtain ⟨ht₁, ht₂⟩ := List.cons.inj ht
          obtain ⟨m, hm, hrest⟩ := foldlM_cons_eq_ok.mp h
          obtain ⟨stmt, hkey, hins⟩ := parseLine_inserts ht₁ hm
          obtain ⟨stmts, hins', hkeys⟩ := ih ht₂ hrest
          refine ⟨stmt :: stmts, ?_, ?_⟩
          · rw [hins', hins, List.append_assoc]
            rfl
          · rw [List.map_cons, List.map_cons, hkey, hkeys]

end run

/-! ### Distinct keys -/

/-- The timestamps stay apart as single-precision numbers: of any two, the smaller has at
most 24 bits, or a midpoint of two neighbouring such numbers lies between them. -/
def SinglesApart (times : List ℕ) : Prop :=
  ∀ a ∈ times, ∀ b ∈ times, a < b → a < 2 ^ 24 ∨ MidpointBetween 24 a b

theorem stamps_nodup_iff (definition : Json) {times : List ℕ} (hnodup : times.Nodup) :
    (times.map (stamp definition)).Nodup ↔
      ("timestamp" ∈ definition.entries.map Prod.fst ∨ times.length ≤ 1) ∧ SinglesApart times := by
  by_cases hlisted : "timestamp" ∈ definition.entries.map Prod.fst
  · have hinj : (times.map (stamp definition)).Nodup ↔
        ∀ a ∈ times, ∀ b ∈ times, stamp definition a = stamp definition b → a = b :=
      List.nodup_map_iff_inj_on hnodup
    have hne : ∀ a b : ℕ, a < b →
        (stamp definition a ≠ stamp definition b ↔ a < 2 ^ 24 ∨ MidpointBetween 24 a b) := by
      intro a b hab
      rw [← roundBits_ne_iff (K := ℚ) 24 (by decide) hab]
      simp [stamp, hlisted]
    rw [hinj]
    simp only [hlisted, true_or, true_and]
    constructor
    · intro h a ha b hb hab
      exact (hne a b hab).mp fun heq => hab.ne (h a ha b hb heq)
    · intro h a ha b hb heq
      rcases lt_trichotomy a b with hab | hab | hab
      · exact absurd heq ((hne a b hab).mpr (h a ha b hb hab))
      · exact hab
      · exact absurd heq.symm ((hne b a hab).mpr (h b hb a ha hab))
  · simp only [hlisted, false_or]
    match times with
    | [] => simp [SinglesApart]
    | [a] => simp [SinglesApart]
    | a :: b :: rest => simp [stamp, hlisted]

/-- The samples of a run keep distinct keys exactly when the definition lists the timestamp
(or there is only one sample) and the timestamps stay apart as single-precision numbers. -/
theorem sample_keys_nodup_iff (c : RessourceClient) (definition : Json) (answers : ℕ → Answer)
    (s s' : ParseState) (lines : List Json) (times : List ℕ)
    (htimes : lines.map (fun l => l.member "timestamp") = times.map fun t : ℕ => .ok (.int t))
    (hnodup : times.Nodup) (h : parseLines (c.updateDefs definition) answers s lines = .ok s') :
    ((s'.inserts.drop s.inserts.length).map SampleInsert.key).Nodup ↔
      ("timestamp" ∈ definition.entries.map Prod.fst ∨ lines.length ≤ 1) ∧
        SinglesApart times := by
  obtain ⟨stmts, hins, hkeys⟩ := parseLines_inserts htimes h
  have hlen : lines.length = times.length := by simpa using congrArg List.length htimes
  have hinj : Function.Injective fun x : Option ℚ => (c.hostId, c.resId, x) := by
    intro x y hxy
    cases hxy
    rfl
  rw [hins, List.drop_left, hkeys, hlen, ← stamps_nodup_iff definition hnodup]
  rw [← List.nodup_map_iff hinj, List.map_map]
  rfl

/-- Properties of a disk. -/
def diskDefinition : Json := .obj [("pctfree", .null), ("timestamp", .null)]

theorem diskLine_isSample (timestamp pctfree : ℤ) : (diskLine timestamp pctfree).IsSample := by
  intro p hp
  simp only [List.mem_cons, List.not_mem_nil, or_false] at hp
  rcases hp with rfl | rfl <;> exact ⟨_, rfl⟩

theorem sample_keys_nodup_iff_disk :
    ∃ s', parseLines (diskClient.updateDefs diskDefinition) countedIds (.start ∅ emptyDatabase)
        [diskLine 1000 10, diskLine 2000 30] = .ok s' ∧
      (s'.inserts.map SampleInsert.key).Nodup := by
  have hrun : Succeeds (parseLines (diskClient.updateDefs diskDefinition) countedIds
      (.start ∅ emptyDatabase) [diskLine 1000 10, diskLine 2000 30]) := by
    refine parseLines_of_isSample ?_
    simp [diskLine_isSample]
  obtain ⟨s', hs⟩ := hrun
  refine ⟨s', hs, ?_⟩
  refine (sample_keys_nodup_iff diskClient diskDefinition countedIds _ s' _ [1000, 2000] rfl
    (by decide) hs).mpr ⟨Or.inl (by decide), ?_⟩
  intro a ha b hb _
  left
  simp only [List.mem_cons, List.not_mem_nil, or_false] at ha
  omega

/-- Two samples of one disk, a second apart: the second one replaces the first. -/
theorem samples_a_second_apart_collide :
    [1500000000000, 1500000001000].Nodup ∧ 1500000001000 < 2 ^ 53 ∧
    ∃ s', parseLines (diskClient.updateDefs diskDefinition) countedIds (.start ∅ emptyDatabase)
        [diskLine 1500000000000 10, diskLine 1500000001000 30] = .ok s' ∧
      ¬ (s'.inserts.map SampleInsert.key).Nodup := by
  have hrun : (parseLines (diskClient.updateDefs diskDefinition) countedIds
      (.start ∅ emptyDatabase) [diskLine 1500000000000 10, diskLine 1500000001000 30]).toOption.map
      (fun s' => decide (s'.inserts.map SampleInsert.key).Nodup) = some false := by
    decide +kernel
  obtain ⟨s', hs, hkeys⟩ := exists_ok_of_toOption_map hrun
  exact ⟨by decide, by decide, s', hs, of_decide_eq_false hkeys⟩

end WatchedBack
