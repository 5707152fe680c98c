import Mathlib

/-! Reports about keys, one after the other: the first and the last one of each key, the reports
that differ from the last one, and tables that keep one row of each key. -/

namespace Reports

universe u v

/-- When two reports are taken for the same. -/
structure Likeness (α : Type u) where
  same : α → α → Bool
  refl : ∀ x, same x x = true
  symm : ∀ {x y}, same x y = true → same y x = true
  trans : ∀ {x y z}, same x y = true → same y z = true → same x z = true

namespace Likeness

/-- Reports of the same keys. -/
def comap {α : Type u} {κ : Type v} (L : Likeness κ) (keyOf : α → κ) : Likeness α where
  same x y := L.same (keyOf x) (keyOf y)
  refl x := L.refl (keyOf x)
  symm h := L.symm h
  trans h h' := L.trans h h'

variable {α : Type u} (L : Likeness α) {x y z : α} {seen seen' xs ys : List α}

theorem comm (x y : α) : L.same x y = L.same y x := by
  rw [Bool.eq_iff_iff]
  exact ⟨L.symm, L.symm⟩

/-- What is the same is the same as the same reports. -/
theorem congr (h : L.same x y = true) (z : α) : L.same x z = L.same y z := by
  rw [Bool.eq_iff_iff]
  exact ⟨L.trans (L.symm h), L.trans h⟩

/-! ### The first report of a key -/

/-- A report of the key is among them. -/
def seenIn (xs : List α) (x : α) : Bool := xs.any (L.same x)

/-- The reports whose keys no report before them had. -/
def firsts : List α → List α → List α
  | _, [] => []
  | seen, x :: xs =>
      if L.seenIn seen x then firsts seen xs else x :: firsts (seen ++ [x]) xs

variable {L}

theorem seenIn_iff : L.seenIn xs x = true ↔ ∃ y ∈ xs, L.same x y = true := List.any_eq_true

theorem seenIn_append (xs ys : List α) (x : α) :
    L.seenIn (xs ++ ys) x = (L.seenIn xs x || L.seenIn ys x) :=
  List.any_append

theorem seenIn_of_mem (h : x ∈ xs) : L.seenIn xs x = true := seenIn_iff.mpr ⟨x, h, L.refl x⟩

theorem seenIn_congr (h : L.same x y = true) : L.seenIn xs x = L.seenIn xs y := by
  unfold seenIn
  congr 1
  funext z
  exact L.congr h z

/-- A report of a known key adds no key. -/
theorem seenIn_append_known (hx : L.seenIn seen x = true) (y : α) :
    L.seenIn (seen ++ [x]) y = L.seenIn seen y := by
  rw [seenIn_append]
  cases hy : L.seenIn seen y with
  | true => rfl
  | false =>
      cases hxy : L.same y x with
      | true =>
          rw [seenIn_congr hxy, hx] at hy
          cases hy
      | false => simp [seenIn, hxy]

theorem firsts_congr (h : ∀ y, L.seenIn seen y = L.seenIn seen' y) (xs : List α) :
    L.firsts seen xs = L.firsts seen' xs := by
  induction xs generalizing seen seen' with
  | nil => rfl
  | cons x xs ih =>
      rw [firsts, firsts, h x]
      split
      · exact ih h
      · congr 1
        apply ih
        intro y
        rw [seenIn_append, seenIn_append, h y]

theorem firsts_append (seen xs ys : List α) :
    L.firsts seen (xs ++ ys) = L.firsts seen xs ++ L.firsts (seen ++ xs) ys := by
  induction xs generalizing seen with
  | nil => simp [firsts]
  | cons x xs ih =>
      rw [List.cons_append, firsts, firsts]
      split
      · next hx =>
        rw [ih seen]
        congr 1
        apply firsts_congr
        intro y
        rw [← List.singleton_append, ← List.append_assoc, seenIn_append, seenIn_append,
          seenIn_append_known hx]
      · rw [ih (seen ++ [x]), List.cons_append, List.append_assoc, List.singleton_append]

/-- The first reports have all keys. -/
theorem seenIn_append_firsts (seen xs : List α) (y : α) :
    L.seenIn (seen ++ L.firsts seen xs) y = L.seenIn (seen ++ xs) y := by
  induction xs generalizing seen with
  | nil => rfl
  | cons x xs ih =>
      rw [firsts]
      split
      · next hx =>
        rw [ih seen, ← List.singleton_append (l := xs), ← List.append_assoc, seenIn_append,
          seenIn_append (seen ++ [x]), seenIn_append_known hx]
      · rw [← List.singleton_append, ← List.append_assoc, ih (seen ++ [x]), List.append_assoc,
          List.singleton_append]

theorem firsts_eq_nil (h : ∀ x ∈ xs, L.seenIn seen x = true) : L.firsts seen xs = [] := by
  induction xs with
  | nil => rfl
  | cons x xs ih =>
      rw [firsts, if_pos (h x List.mem_cons_self)]
      exact ih fun y hy => h y (List.mem_cons_of_mem x hy)

/-- A new key has one first report, any other none. -/
theorem countP_firsts (seen xs : List α) (y : α) : (L.firsts seen xs).countP (L.same y) =
    if L.seenIn seen y = false ∧ L.seenIn xs y = true then 1 else 0 := by
  induction xs generalizing seen with
  | nil => simp [firsts, seenIn]
  | cons x xs ih =>
      have hcons : L.seenIn (x :: xs) y = (L.same y x || L.seenIn xs y) := List.any_cons
      rw [firsts, hcons]
      split
      · next hx =>
        rw [ih seen]
        cases hyx : L.same y x with
        | true =>
            have hy : L.seenIn seen y = true := (seenIn_congr hyx).trans hx
            simp [hy]
        | false => rfl
      · next hx =>
        rw [List.countP_cons, ih (seen ++ [x]), seenIn_append]
        have hsingle : L.seenIn [x] y = L.same y x := by simp [seenIn]
        rw [hsingle]
        cases hyx : L.same y x with
        | true =>
            have hy : L.seenIn seen y = false := by
              rw [seenIn_congr hyx]
              exact Bool.eq_false_of_not_eq_true hx
            simp [hy]
        | false => simp

/-- Where every key of a list occurs once, so it does after the first reports of others. -/
theorem countP_append_firsts (hseen : seen.Pairwise fun a b => L.same a b = false)
    (hy : L.seenIn (seen ++ xs) y = true) : (seen ++ L.firsts seen xs).countP (L.same y) = 1 := by
  rw [List.countP_append, countP_firsts]
  cases hold : L.seenIn seen y with
  | false =>
      have hzero : seen.countP (L.same y) = 0 := by
        rw [List.countP_eq_zero]
        intro a ha hya
        rw [seenIn, List.any_eq_false] at hold
        exact hold a ha hya
      rw [seenIn_append, hold, Bool.false_or] at hy
      simp [hzero, hy]
  | true =>
      obtain ⟨a, ha, hya⟩ := seenIn_iff.mp hold
      have hle : seen.countP (L.same y) ≤ 1 := by
        clear hold hy ha hya
        induction seen with
        | nil => simp
        | cons b seen ih =>
            obtain ⟨hb, hseen⟩ := List.pairwise_cons.mp hseen
            rw [List.countP_cons]
            split
            · next hyb =>
              have hnone : seen.countP (L.same y) = 0 := by
                rw [List.countP_eq_zero]
                intro c hc hyc
                have hbc := L.trans (L.symm hyb) hyc
                rw [hb c hc] at hbc
                cases hbc
              omega
            · exact ih hseen
      have hpos : 0 < seen.countP (L.same y) := List.countP_pos_iff.mpr ⟨a, ha, hya⟩
      simp only [Bool.true_eq_false, false_and, if_false]
      omega

theorem mem_of_mem_firsts (h : y ∈ L.firsts seen xs) : y ∈ xs ∧ L.seenIn seen y = false := by
  induction xs generalizing seen with
  | nil => cases h
  | cons x xs ih =>
      rw [firsts] at h
      split at h
      · obtain ⟨hmem, hnew⟩ := ih h
        exact ⟨List.mem_cons_of_mem x hmem, hnew⟩
      · next hx =>
        rcases List.mem_cons.mp h with rfl | h
        · exact ⟨List.mem_cons_self, Bool.eq_false_of_not_eq_true hx⟩
        · obtain ⟨hmem, hnew⟩ := ih h
          rw [seenIn_append, Bool.or_eq_false_iff] at hnew
          exact ⟨List.mem_cons_of_mem x hmem, hnew.1⟩

/-- No key is first reported twice. -/
theorem pairwise_firsts (seen xs : List α) :
    (L.firsts seen xs).Pairwise fun a b => L.same a b = false := by
  induction xs generalizing seen with
  | nil => exact .nil
  | cons x xs ih =>
      rw [firsts]
      split
      · exact ih seen
      · refine .cons (fun y hy => ?_) (ih _)
        have hnew := (mem_of_mem_firsts hy).2
        rw [seenIn_append, Bool.or_eq_false_iff] at hnew
        have hother : L.seenIn [x] y = false := hnew.2
        rw [seenIn, List.any_cons, List.any_nil, Bool.or_false] at hother
        rw [L.comm]
        exact hother

theorem seenIn_firsts (xs : List α) (y : α) : L.seenIn (L.firsts [] xs) y = L.seenIn xs y := by
  simpa using L.seenIn_append_firsts [] xs y

/-- As many keys are reported as there are keys. -/
theorem length_firsts_congr (h : ∀ y, L.seenIn xs y = L.seenIn ys y) :
    (L.firsts [] xs).length = (L.firsts [] ys).length := by
  let keys : Setoid α := ⟨fun x y => L.same x y = true, L.refl, L.symm, L.trans⟩
  have hnodup (zs : List α) : ((L.firsts [] zs).map (Quotient.mk keys)).Nodup := by
    rw [List.Nodup, List.pairwise_map]
    refine (L.pairwise_firsts [] zs).imp fun hdiff heq => ?_
    have hsame := Quotient.exact heq
    exact Bool.false_ne_true (hdiff.symm.trans hsame)
  have hmem (zs : List α) (y : α) :
      Quotient.mk keys y ∈ (L.firsts [] zs).map (Quotient.mk keys) ↔ L.seenIn zs y = true := by
    rw [← seenIn_firsts, seenIn_iff, List.mem_map]
    refine exists_congr fun z => and_congr_right fun _ => ?_
    rw [L.comm]
    exact Quotient.eq (r := keys)
  have hperm : ((L.firsts [] xs).map (Quotient.mk keys)).Perm
      ((L.firsts [] ys).map (Quotient.mk keys)) := by
    rw [List.perm_ext_iff_of_nodup (hnodup xs) (hnodup ys)]
    intro q
    obtain ⟨y, rfl⟩ := Quotient.exists_rep q
    rw [hmem, hmem, h]
  simpa using hperm.length_eq

/-! ### The last report of a key -/

variable (L) in
/-- The last report of the key. -/
def last (xs : List α) (x : α) : Option α := xs.reverse.find? (L.same x)

theorem last_append (xs ys : List α) (x : α) :
    L.last (xs ++ ys) x = (L.last ys x).or (L.last xs x) := by
  rw [last, List.reverse_append, List.find?_append]
  rfl

theorem last_singleton (y x : α) : L.last [y] x = if L.same x y then some y else none := by
  rw [last, List.reverse_singleton, List.find?_singleton]

theorem last_congr (h : L.same x y = true) (xs : List α) : L.last xs x = L.last xs y := by
  unfold last
  congr 1
  funext z
  exact L.congr h z

theorem last_spec (h : L.last xs x = some y) : y ∈ xs ∧ L.same x y = true :=
  ⟨List.mem_reverse.mp (List.mem_of_find?_eq_some h), List.find?_some (p := L.same x) h⟩

theorem last_eq_none_iff : L.last xs x = none ↔ L.seenIn xs x = false := by
  rw [last, List.find?_eq_none, seenIn, List.any_eq_false]
  simp only [List.mem_reverse]

theorem exists_last (h : L.seenIn xs x = true) : ∃ y, L.last xs x = some y := by
  apply Option.ne_none_iff_exists'.mp
  intro hnone
  rw [last_eq_none_iff, h] at hnone
  cases hnone

theorem last_map {f : α → α} (hf : ∀ x y, L.same x (f y) = L.same x y) (xs : List α) (x : α) :
    L.last (xs.map f) x = (L.last xs x).map f := by
  have hcomp : L.same x ∘ f = L.same x := funext (hf x)
  rw [last, last, ← List.map_reverse, List.find?_map, hcomp]

/-! ### Reports unlike the last one -/

variable (L) in
/-- The reports that ring: it depends on the last report of the key before. -/
def alarms (rings : Option α → α → Bool) : List α → List α → List α
  | _, [] => []
  | seen, x :: xs =>
      if rings (L.last seen x) x then x :: alarms rings (seen ++ [x]) xs
      else alarms rings (seen ++ [x]) xs

section alarms

variable {rings : Option α → α → Bool}

theorem mem_alarms : x ∈ L.alarms rings seen xs ↔
    ∃ before after, xs = before ++ x :: after ∧ rings (L.last (seen ++ before) x) x = true := by
  induction xs generalizing seen with
  | nil => simp [alarms]
  | cons y xs ih =>
      have hrest : x ∈ L.alarms rings (seen ++ [y]) xs ↔ ∃ before after,
          y :: xs = y :: before ++ x :: after ∧
            rings (L.last (seen ++ (y :: before)) x) x = true := by
        rw [ih]
        simp only [List.append_assoc, List.cons_append, List.nil_append, List.cons.injEq, true_and]
      have hsplit : x ∈ L.alarms rings seen (y :: xs) ↔
          (rings (L.last seen y) y = true ∧ x = y) ∨ x ∈ L.alarms rings (seen ++ [y]) xs := by
        rw [alarms]
        split
        · next hy => simp [hy]
        · next hy => simp [hy]
      rw [hsplit, hrest]
      constructor
      · intro h
        rcases h with ⟨hy, rfl⟩ | ⟨before, after, heq, hx⟩
        · exact ⟨[], xs, rfl, by simpa using hy⟩
        · exact ⟨y :: before, after, heq, hx⟩
      · rintro ⟨before, after, heq, hx⟩
        cases before with
        | nil =>
            obtain ⟨rfl, rfl⟩ := List.cons.inj heq
            exact Or.inl ⟨by simpa using hx, rfl⟩
        | cons z before =>
            obtain ⟨rfl, -⟩ := List.cons.inj heq
            exact Or.inr ⟨before, after, heq, hx⟩

theorem alarms_append (rings : Option α → α → Bool) (seen xs ys : List α) :
    L.alarms rings seen (xs ++ ys) = L.alarms rings seen xs ++ L.alarms rings (seen ++ xs) ys := by
  induction xs generalizing seen with
  | nil => simp [alarms]
  | cons x xs ih =>
      rw [List.cons_append, alarms, alarms]
      split
      · rw [ih, List.append_assoc, List.singleton_append, List.cons_append]
      · rw [ih, List.append_assoc, List.singleton_append]

theorem alarms_congr {rings' : Option α → α → Bool} {seen' : List α}
    (h : ∀ before x after, xs = before ++ x :: after →
      rings (L.last (seen ++ before) x) x = rings' (L.last (seen' ++ before) x) x) :
    L.alarms rings seen xs = L.alarms rings' seen' xs := by
  induction xs generalizing seen seen' with
  | nil => rfl
  | cons x xs ih =>
      have hx := h [] x xs rfl
      rw [List.append_nil, List.append_nil] at hx
      have hrest : L.alarms rings (seen ++ [x]) xs = L.alarms rings' (seen' ++ [x]) xs := by
        apply ih
        intro before y after heq
        rw [List.append_assoc, List.append_assoc]
        exact h (x :: before) y after (by rw [heq]; rfl)
      rw [alarms, alarms, hx, hrest]

/-- A change of the reports that ringing does not depend on. -/
theorem alarms_map {f : α → α} (hsame : ∀ x y, L.same x (f y) = L.same x y)
    (hto : ∀ o x, rings o (f x) = rings o x)
    (hof : ∀ y x, rings (some (f y)) x = rings (some y) x) (seen before xs : List α) :
    L.alarms rings (seen ++ before.map f) (xs.map f) =
      (L.alarms rings (seen ++ before) xs).map f := by
  induction xs generalizing before with
  | nil => rfl
  | cons x xs ih =>
      have hx : rings (L.last (seen ++ before.map f) (f x)) (f x) =
          rings (L.last (seen ++ before) x) x := by
        have hfx : L.same (f x) x = true := by
          rw [L.comm, hsame]
          exact L.refl x
        rw [hto, last_congr hfx, last_append, last_append, last_map hsame]
        cases L.last before x with
        | some y => exact hof y x
        | none => rfl
      have hrest := ih (before ++ [x])
      rw [List.map_append, List.map_singleton, ← List.append_assoc, ← List.append_assoc] at hrest
      rw [List.map_cons, alarms, alarms, hx, hrest]
      split
      · rw [List.map_cons]
      · rfl

/-- Where nothing rings, what a silent report takes over from the last one stays with its key. -/
theorem silent_keeps {k : α} (P : α → Prop)
    (hP : ∀ a, ∀ b ∈ xs, L.same k b = true → rings (some a) b = false → P a → P b)
    (hsilent : L.alarms rings seen xs = []) (hy : L.last seen k = some y) (hPy : P y) :
    (∃ z, L.last (seen ++ xs) k = some z ∧ P z) ∧ ∀ x ∈ xs, L.same k x = true → P x := by
  induction xs generalizing seen y with
  | nil => exact ⟨⟨y, by rwa [List.append_nil], hPy⟩, by simp⟩
  | cons x xs ih =>
      have hP' (a : α) (b : α) (hb : b ∈ xs) := hP a b (List.mem_cons_of_mem x hb)
      have hx : rings (L.last seen x) x = false := by
        apply Bool.eq_false_of_not_eq_true
        intro hring
        rw [alarms, if_pos hring] at hsilent
        cases hsilent
      rw [alarms, hx, if_neg Bool.false_ne_true] at hsilent
      rw [← List.singleton_append, ← List.append_assoc]
      cases hkx : L.same k x with
      | true =>
          rw [← last_congr hkx, hy] at hx
          have hPx := hP y x List.mem_cons_self hkx hx hPy
          have hlast : L.last (seen ++ [x]) k = some x := by
            rw [last_append, last_singleton, if_pos hkx]
            rfl
          obtain ⟨hz, hall⟩ := ih hP' hsilent hlast hPx
          refine ⟨hz, List.forall_mem_cons.mpr ⟨fun _ => hPx, hall⟩⟩
      | false =>
          have hlast : L.last (seen ++ [x]) k = some y := by
            rw [last_append, last_singleton, hkx, if_neg Bool.false_ne_true, hy]
            rfl
          obtain ⟨hz, hall⟩ := ih hP' hsilent hlast hPy
          refine ⟨hz, List.forall_mem_cons.mpr ⟨fun h => ?_, hall⟩⟩
          rw [hkx] at h
          cases h

/-- Where a report rings if it is bad and unlike the last one, and the good ones are alike, a
repetition of the reports is silent exactly if all reports of one key are alike. -/
theorem alarms_again_eq_nil_iff (A : Likeness α) (bad : α → Bool)
    (hgood : ∀ x y, bad x = false → bad y = false → A.same x y = true)
    (hrings : ∀ x y, rings (some y) x = (bad x && !A.same y x)) (seen xs : List α) :
    L.alarms rings (seen ++ xs) xs = [] ↔
      ∀ x ∈ xs, ∀ y ∈ xs, L.same x y = true → A.same x y = true := by
  constructor
  · intro hsilent x hx y hy hxy
    have hseen : L.seenIn (seen ++ xs) x = true :=
      (seenIn_append seen xs x).trans (by rw [seenIn_of_mem hx, Bool.or_true])
    obtain ⟨l, hl⟩ := exists_last hseen
    have hkeep {a b : α} (h : rings (some a) b = false) : bad b = false ∨ A.same a b = true := by
      rw [hrings] at h
      cases hb : bad b with
      | false => exact Or.inl rfl
      | true => exact Or.inr (by simpa [hb] using h)
    -- what is like a good report
    let Good (a : α) : Prop := ∃ w, bad w = false ∧ A.same a w = true
    have hstays (a : α) (b : α) (h : rings (some a) b = false) (ha : Good a) : Good b := by
      obtain ⟨w, hw, haw⟩ := ha
      rcases hkeep h with hb | hab
      · exact ⟨b, hb, A.refl b⟩
      · exact ⟨w, hw, A.trans (A.symm hab) haw⟩
    by_cases hgoods : ∃ z ∈ xs, L.same x z = true ∧ Good z
    · obtain ⟨z, hz, hxz, hgoodz⟩ := hgoods
      obtain ⟨before, after, hsplit⟩ := List.append_of_mem hz
      have hsplit' : before ++ [z] ++ after = xs := by rw [hsplit, List.append_assoc]; rfl
      -- from the good one on the key stays good, until the last report of all
      have hafter : L.alarms rings (seen ++ xs ++ (before ++ [z])) after = [] := by
        have happ := alarms_append (L := L) rings (seen ++ xs) (before ++ [z]) after
        rw [hsplit', hsilent] at happ
        exact (List.append_eq_nil_iff.mp happ.symm).2
      have hlastz : L.last (seen ++ xs ++ (before ++ [z])) x = some z := by
        rw [← List.append_assoc, last_append, last_singleton, if_pos hxz]
        rfl
      obtain ⟨⟨l', hl', hgoodl⟩, -⟩ :=
        silent_keeps Good (fun a b _ _ => hstays a b) hafter hlastz hgoodz
      have hsame : l' = l := by
        obtain ⟨m, hm⟩ := exists_last (seenIn_of_mem hx)
        rw [List.append_assoc (seen ++ xs), hsplit', last_append, hm] at hl'
        rw [last_append, hm] at hl
        exact Option.some.inj (hl'.symm.trans hl)
      rw [hsame] at hgoodl
      obtain ⟨-, hall⟩ := silent_keeps Good (fun a b _ _ => hstays a b) hsilent hl hgoodl
      obtain ⟨w, hw, hxw⟩ := hall x hx (L.refl x)
      obtain ⟨w', hw', hyw⟩ := hall y hy hxy
      exact A.trans hxw (A.trans (hgood w w' hw hw') (A.symm hyw))
    · -- all are bad, and each is like the one before
      obtain ⟨-, hall⟩ := silent_keeps (fun a => A.same l a = true)
        (fun a b hb hxb h ha => by
          rcases hkeep h with hgoodb | hab
          · exact absurd ⟨b, hb, hxb, b, hgoodb, A.refl b⟩ hgoods
          · exact A.trans ha hab) hsilent hl (A.refl l)
      exact A.trans (A.symm (hall x hx (L.refl x))) (hall y hy hxy)
  · intro hall
    apply List.eq_nil_iff_forall_not_mem.mpr
    intro x hx
    obtain ⟨before, after, hsplit, hrx⟩ := mem_alarms.mp hx
    have hmem : x ∈ xs := by
      rw [hsplit]
      exact List.mem_append_right _ List.mem_cons_self
    -- the last report of the key is one of the repeated ones
    have hlast : ∃ y ∈ xs, L.last (seen ++ xs ++ before) x = some y := by
      obtain ⟨y, hy⟩ := exists_last (seenIn_of_mem hmem)
      rw [last_append, last_append, hy]
      cases hbefore : L.last before x with
      | none => exact ⟨y, (last_spec hy).1, rfl⟩
      | some z =>
          refine ⟨z, ?_, rfl⟩
          rw [hsplit]
          exact List.mem_append_left _ (last_spec hbefore).1
    obtain ⟨y, hy, hlast⟩ := hlast
    have hxy : L.same x y = true := (last_spec hlast).2
    rw [hlast, hrings, hall y hy x hmem (L.symm hxy)] at hrx
    simp at hrx

end alarms

end Likeness

/-! ### Groups of reports in turn -/

section groups

variable {α : Type u} {β γ : Type v} {out : α → List γ} {emit emit' : List γ → α → List β}

/-- What groups of reports cause one after the other, each after the reports before it. -/
def inTurn (out : α → List γ) (emit : List γ → α → List β) : List γ → List α → List β
  | _, [] => []
  | seen, a :: groups => emit seen a ++ inTurn out emit (seen ++ out a) groups

theorem inTurn_append (seen : List γ) (groups groups' : List α) :
    inTurn out emit seen (groups ++ groups') =
      inTurn out emit seen groups ++ inTurn out emit (seen ++ groups.flatMap out) groups' := by
  induction groups generalizing seen with
  | nil => simp [inTurn]
  | cons a groups ih =>
      rw [List.cons_append, inTurn, inTurn, ih, List.flatMap_cons, List.append_assoc,
        List.append_assoc]

/-- What is caused may depend on less than all the reports before. -/
theorem inTurn_congr (R : List γ → List γ → Prop)
    (hout : ∀ seen seen' a, R seen seen' → R (seen ++ out a) (seen' ++ out a))
    (hemit : ∀ seen seen' a, R seen seen' → emit seen a = emit' seen' a)
    {seen seen' : List γ} (h : R seen seen') (groups : List α) :
    inTurn out emit seen groups = inTurn out emit' seen' groups := by
  induction groups generalizing seen seen' with
  | nil => rfl
  | cons a groups ih => rw [inTurn, inTurn, hemit seen seen' a h, ih (hout seen seen' a h)]

end groups

/-! ### Tables with one row for each key -/

/-- Rows that a report overwrites, but for their keys. -/
structure KeyedRows (α : Type u) extends Likeness α where
  set : α → α → α
  same_set : ∀ x y r, same x (set y r) = same x r
  set_self : ∀ x, set x x = x
  set_set : ∀ x y r, set x (set y r) = set x r

namespace KeyedRows

variable {α : Type u} (S : KeyedRows α) {x y r : α} {rows xs : List α}

/-- Overwrites the rows of the key, or adds one. -/
def put (rows : List α) (x : α) : List α :=
  if rows.any (S.same x) then rows.map fun r => if S.same x r then S.set x r else r
  else rows ++ [x]

variable {S}

theorem seenIn_put (rows : List α) (x y : α) :
    S.seenIn (S.put rows x) y = S.seenIn (rows ++ [x]) y := by
  rw [put]
  split
  · next hx =>
    rw [Likeness.seenIn_append_known hx, Likeness.seenIn, Likeness.seenIn, List.any_map]
    congr 1
    funext r
    rw [Function.comp_apply]
    split
    · exact S.same_set y x r
    · rfl
  · rfl

theorem seenIn_foldl_put (rows xs : List α) (y : α) :
    S.seenIn (xs.foldl S.put rows) y = S.seenIn (rows ++ xs) y := by
  induction xs generalizing rows with
  | nil => rw [List.foldl_nil, List.append_nil]
  | cons x xs ih =>
      rw [List.foldl_cons, ih, Likeness.seenIn_append, seenIn_put, ← Likeness.seenIn_append,
        List.append_assoc, List.singleton_append]

/-- A row of the key has a content, which is that of the report. -/
theorem any_put (p : α → Bool) (hp : ∀ x r, p (S.set x r) = p x) (rows : List α) (x y : α) :
    ((S.put rows x).any fun r => S.same y r && p r) =
      if S.same y x then p x else rows.any fun r => S.same y r && p r := by
  rw [put]
  split
  · next hx =>
    rw [List.any_map]
    cases hyx : S.same y x with
    | true =>
        rw [if_pos rfl, Bool.eq_iff_iff, List.any_eq_true]
        constructor
        · rintro ⟨r, hr, hpr⟩
          rw [Function.comp_apply, Bool.and_eq_true] at hpr
          obtain ⟨hyr, hpr⟩ := hpr
          split at hyr
          · next hxr => rwa [if_pos hxr, hp] at hpr
          · next hxr => exact absurd (S.trans (S.symm hyx) hyr) hxr
        · intro hpx
          obtain ⟨r, hr, hxr⟩ := List.any_eq_true.mp hx
          refine ⟨r, hr, ?_⟩
          rw [Function.comp_apply, if_pos hxr, hp, S.same_set, hpx, S.trans hyx hxr]
          rfl
    | false =>
        rw [if_neg Bool.false_ne_true]
        congr 1
        funext r
        rw [Function.comp_apply]
        split
        · next hxr =>
          have hyr : S.same y r = false := by
            apply Bool.eq_false_of_not_eq_true
            intro hyr
            rw [S.trans hyr (S.symm hxr)] at hyx
            cases hyx
          rw [S.same_set, hyr, Bool.false_and, Bool.false_and]
        · rfl
  · next hx =>
    rw [List.any_append, List.any_cons, List.any_nil, Bool.or_false]
    cases hyx : S.same y x with
    | true =>
        have hnone : (rows.any fun r => S.same y r && p r) = false := by
          rw [List.any_eq_false]
          intro r hr hyr
          rw [Bool.and_eq_true] at hyr
          exact hx (List.any_eq_true.mpr ⟨r, hr, S.trans (S.symm hyx) hyr.1⟩)
        rw [hnone, if_pos rfl, Bool.true_and, Bool.false_or]
    | false => rw [if_neg Bool.false_ne_true, Bool.false_and, Bool.or_false]

/-- The last report of a row has been written to it. -/
theorem set_last (h : r ∈ xs.foldl S.put rows) (hx : S.last xs r = some x) : S.set x r = r := by
  induction xs using List.reverseRecOn generalizing r x with
  | nil => cases hx
  | append_singleton xs z ih =>
      rw [List.foldl_append, List.foldl_cons, List.foldl_nil, put] at h
      rw [Likeness.last_append, Likeness.last_singleton] at hx
      split at h
      · obtain ⟨o, ho, hr⟩ := List.mem_map.mp h
        split at hr
        · next hzo =>
          -- the row has just been overwritten
          rw [← hr] at hx ⊢
          rw [S.comm, S.same_set, hzo, if_pos rfl] at hx
          cases hx
          exact S.set_set z z o
        · next hzo =>
          rw [← hr] at hx ⊢
          rw [S.comm, if_neg hzo] at hx
          exact ih ho hx
      · next hnone =>
        rcases List.mem_append.mp h with ho | hz
        · have hzr : ¬ S.same r z = true := by
            intro hrz
            exact hnone (List.any_eq_true.mpr ⟨r, ho, S.symm hrz⟩)
          rw [if_neg hzr] at hx
          exact ih ho hx
        · obtain rfl := List.mem_singleton.mp hz
          rw [if_pos (S.refl r)] at hx
          cases hx
          exact S.set_self _

variable (S) in
/-- A row after the reports. -/
def written (xs : List α) (r : α) : α :=
  match S.last xs r with
  | some x => S.set x r
  | none => r

theorem written_append_singleton (xs : List α) (z r : α) :
    S.written (xs ++ [z]) r = if S.same z r then S.set z (S.written xs r) else S.written xs r := by
  rw [written, Likeness.last_append, Likeness.last_singleton, S.comm r z]
  cases S.same z r with
  | true =>
      rw [if_pos rfl, if_pos rfl, written]
      cases S.last xs r with
      | some x => exact (S.set_set z x r).symm
      | none => rfl
  | false =>
      rw [if_neg Bool.false_ne_true, if_neg Bool.false_ne_true]
      rfl

theorem same_written (xs : List α) (r y : α) : S.same y (S.written xs r) = S.same y r := by
  rw [written]
  split
  · exact S.same_set y _ r
  · rfl

theorem filter_overwrite (rows : List α) (y z : α) :
    (rows.map fun r => if S.same z r then S.set z r else r).filter (S.same y) =
      (rows.filter (S.same y)).map fun r => if S.same z r then S.set z r else r := by
  rw [List.filter_map]
  congr 2
  funext r
  rw [Function.comp_apply]
  split
  · exact S.same_set y z r
  · rfl

/-- Where a report overwrites the rows of its key altogether, a key that is new to the table has
its last report as its only row. -/
theorem filter_foldl_put (hnew : S.seenIn rows y = false)
    (hset : ∀ x ∈ xs, ∀ x' ∈ xs, S.same x x' = true → S.set x x' = x) :
    (xs.foldl S.put rows).filter (S.same y) = (S.last xs y).toList := by
  induction xs using List.reverseRecOn with
  | nil =>
      rw [Likeness.seenIn, List.any_eq_false] at hnew
      exact List.filter_eq_nil_iff.mpr hnew
  | append_singleton xs z ih =>
      have hz : z ∈ xs ++ [z] := List.mem_append_right _ (List.mem_singleton_self z)
      have hrows := ih fun x hx x' hx' =>
        hset x (List.mem_append_left _ hx) x' (List.mem_append_left _ hx')
      have hseen : S.seenIn (xs.foldl S.put rows) y = S.seenIn xs y := by
        rw [seenIn_foldl_put, Likeness.seenIn_append, hnew, Bool.false_or]
      rw [List.foldl_append, List.foldl_cons, List.foldl_nil, put, Likeness.last_append,
        Likeness.last_singleton]
      cases hyz : S.same y z with
      | true =>
          rw [if_pos rfl, Option.some_or]
          split
          · next hany =>
            -- the row of the key is overwritten
            have hknown : S.seenIn xs y = true := by
              rw [← hseen, Likeness.seenIn_congr hyz]
              exact hany
            obtain ⟨x, hx⟩ := Likeness.exists_last hknown
            obtain ⟨hmem, hyx⟩ := Likeness.last_spec hx
            have hzx : S.same z x = true := S.trans (S.symm hyz) hyx
            rw [filter_overwrite, hrows, hx]
            change [if S.same z x = true then S.set z x else x] = [z]
            rw [if_pos hzx, hset z hz x (List.mem_append_left _ hmem) hzx]
          · next hany =>
            have hunknown : S.seenIn xs y = false := by
              rw [← hseen, Likeness.seenIn_congr hyz]
              exact Bool.eq_false_of_not_eq_true hany
            rw [List.filter_append, hrows, Likeness.last_eq_none_iff.mpr hunknown,
              List.filter_singleton, hyz]
            rfl
      | false =>
          rw [if_neg Bool.false_ne_true, Option.none_or]
          split
          · have hother (r : α) (hr : S.same y r = true) : S.same z r = false := by
              apply Bool.eq_false_of_not_eq_true
              intro hzr
              rw [S.trans hr (S.symm hzr)] at hyz
              cases hyz
            rw [filter_overwrite, hrows]
            cases hx : S.last xs y with
            | none => rfl
            | some x =>
                change [if S.same z x = true then S.set z x else x] = [x]
                rw [hother x (Likeness.last_spec hx).2, if_neg Bool.false_ne_true]
          · rw [List.filter_append, hrows, List.filter_singleton, hyz]
            exact List.append_nil _

/-- Reports of known keys only overwrite rows. -/
theorem foldl_put_known (h : ∀ x ∈ xs, S.seenIn rows x = true) :
    xs.foldl S.put rows = rows.map (S.written xs) := by
  induction xs using List.reverseRecOn with
  | nil =>
      have hid : S.written [] = id := rfl
      rw [List.foldl_nil, hid, List.map_id]
  | append_singleton xs z ih =>
      have hz : S.seenIn (xs.foldl S.put rows) z = true := by
        rw [seenIn_foldl_put, Likeness.seenIn_append,
          h z (List.mem_append_right _ (List.mem_singleton_self z)), Bool.true_or]
      have hput : S.put (xs.foldl S.put rows) z =
          (xs.foldl S.put rows).map fun r => if S.same z r then S.set z r else r := if_pos hz
      rw [List.foldl_append, List.foldl_cons, List.foldl_nil, hput,
        ih fun x hx => h x (List.mem_append_left _ hx), List.map_map]
      apply List.map_congr_left
      intro r _
      rw [Function.comp_apply, same_written, written_append_singleton]

/-- A table after reports: the rows that it had and one for each new key, in the spelling of its
first report, all of them as the last report of their key wrote them. -/
theorem foldl_put_eq (rows xs : List α) :
    xs.foldl S.put rows = (rows ++ S.firsts rows xs).map (S.written xs) := by
  induction xs using List.reverseRecOn with
  | nil =>
      have hid : S.written [] = id := rfl
      rw [List.foldl_nil, hid, List.map_id, Likeness.firsts, List.append_nil]
  | append_singleton xs z ih =>
      have hrow : ∀ r, S.written (xs ++ [z]) r =
          if S.same z (S.written xs r) then S.set z (S.written xs r) else S.written xs r := by
        intro r
        rw [written_append_singleton, same_written]
      have hseen : (xs.foldl S.put rows).any (S.same z) = S.seenIn (rows ++ xs) z :=
        seenIn_foldl_put rows xs z
      rw [List.foldl_append, List.foldl_cons, List.foldl_nil, put, hseen, Likeness.firsts_append,
        Likeness.firsts, Likeness.firsts, Likeness.firsts]
      split
      · rw [ih, List.map_map, List.append_nil]
        apply List.map_congr_left
        intro r _
        exact (hrow r).symm
      · next hnew =>
        -- no row has the key yet
        have hother : ∀ r ∈ xs.foldl S.put rows, S.same z r = false := by
          rw [Bool.not_eq_true, ← hseen, List.any_eq_false] at hnew
          exact fun r hr => Bool.eq_false_of_not_eq_true (hnew r hr)
        have hlast : S.written (xs ++ [z]) z = z := by
          rw [written, Likeness.last_append, Likeness.last_singleton, if_pos (S.refl z)]
          exact S.set_self z
        rw [← List.append_assoc, List.map_append, List.map_singleton, hlast]
        congr 1
        rw [ih] at hother ⊢
        apply List.map_congr_left
        intro r hr
        rw [hrow r, hother _ (List.mem_map_of_mem hr)]
        rfl

variable (S) in
/-- The rows after reports: each key that had a row or was reported has one, and where it was
reported, the row says what the last report said. -/
structure Latest (rows xs rows' : List α) : Prop where
  unique : rows.Pairwise (fun a b => S.same a b = false) →
    rows'.Pairwise fun a b => S.same a b = false
  stored : ∀ y, S.seenIn rows' y = S.seenIn (rows ++ xs) y
  last : ∀ r ∈ rows', ∀ x, S.last xs r = some x → S.set x r = r
  kept : ∀ r ∈ rows', S.last xs r = none → r ∈ rows

theorem latest_foldl_put (rows xs : List α) : S.Latest rows xs (xs.foldl S.put rows) := by
  have hall : ∀ r ∈ rows ++ S.firsts rows xs, S.last xs (S.written xs r) = S.last xs r := by
    intro r _
    apply Likeness.last_congr
    rw [S.comm, same_written]
    exact S.refl r
  refine ⟨fun hrows => ?_, seenIn_foldl_put rows xs, fun r hr x hx => set_last hr hx, ?_⟩
  · rw [foldl_put_eq, List.pairwise_map]
    have hsame : ∀ a b, S.same (S.written xs a) (S.written xs b) = S.same a b := by
      intro a b
      rw [same_written, S.comm, same_written, S.comm]
    simp only [hsame]
    refine List.pairwise_append.mpr ⟨hrows, Likeness.pairwise_firsts rows xs, fun a ha b hb => ?_⟩
    have hnew := (Likeness.mem_of_mem_firsts hb).2
    rw [Likeness.seenIn, List.any_eq_false] at hnew
    rw [S.comm]
    exact Bool.eq_false_of_not_eq_true (hnew a ha)
  · intro r hr hnone
    rw [foldl_put_eq] at hr
    obtain ⟨q, hq, rfl⟩ := List.mem_map.mp hr
    rw [hall q hq] at hnone
    have hself : S.written xs q = q := by rw [written, hnone]
    rw [hself]
    refine (List.mem_append.mp hq).resolve_right fun hfirst => ?_
    have hseen : S.seenIn xs q = true :=
      Likeness.seenIn_of_mem (Likeness.mem_of_mem_firsts hfirst).1
    rw [Likeness.last_eq_none_iff, hseen] at hnone
    cases hnone

/-- What a table that was empty shows of its rows is what the last reports say. -/
theorem mem_map_foldl_put_nil {β : Type v} (f : α → β)
    (hf : ∀ x r, S.same x r = true → f (S.set x r) = f x) (xs : List α) (b : β) :
    b ∈ (xs.foldl S.put []).map f ↔ ∃ x ∈ xs, S.last xs x = some x ∧ f x = b := by
  have h := S.latest_foldl_put [] xs
  constructor
  · intro hb
    obtain ⟨r, hr, rfl⟩ := List.mem_map.mp hb
    have hseen : S.seenIn xs r = true := by
      rw [← List.nil_append xs, ← h.stored]
      exact Likeness.seenIn_of_mem hr
    obtain ⟨x, hx⟩ := Likeness.exists_last hseen
    obtain ⟨hmem, hrx⟩ := Likeness.last_spec hx
    refine ⟨x, hmem, ?_, ?_⟩
    · rw [← Likeness.last_congr hrx]
      exact hx
    · rw [← hf x r (S.symm hrx), h.last r hr x hx]
  · rintro ⟨x, hx, hlast, rfl⟩
    have hseen : S.seenIn (xs.foldl S.put []) x = true := by
      rw [h.stored]
      exact Likeness.seenIn_of_mem (List.mem_append_right [] hx)
    obtain ⟨r, hr, hxr⟩ := Likeness.seenIn_iff.mp hseen
    rw [Likeness.last_congr hxr] at hlast
    refine List.mem_map.mpr ⟨r, hr, ?_⟩
    rw [← hf x r hxr, h.last r hr x hlast]

/-- The same reports once more, but for what a projection forgets, change the rows only in what it
forgets. -/
theorem foldl_put_again {β : Type v} (f : α → β) (touch : α → α)
    (htouch : ∀ x y, S.same x (touch y) = S.same x y)
    (hf : ∀ x r, f (S.set (touch x) r) = f (S.set x r)) (rows xs : List α) :
    ((xs.map touch).foldl S.put (xs.foldl S.put rows)).map f = (xs.foldl S.put rows).map f := by
  have hknown : ∀ x ∈ xs.map touch, S.seenIn (xs.foldl S.put rows) x = true := by
    intro x hx
    obtain ⟨y, hy, rfl⟩ := List.mem_map.mp hx
    have hsame : S.same (touch y) y = true := by
      rw [S.comm, htouch]
      exact S.refl y
    rw [seenIn_foldl_put, Likeness.seenIn_congr hsame]
    exact Likeness.seenIn_of_mem (List.mem_append_right rows hy)
  rw [foldl_put_known hknown, List.map_map]
  apply List.map_congr_left
  intro r hr
  rw [Function.comp_apply, written, Likeness.last_map htouch]
  cases hlast : S.last xs r with
  | none => rfl
  | some x =>
      change f (S.set (touch x) r) = f r
      rw [hf, set_last hr hlast]

end KeyedRows

end Reports
