import Mathlib

/-! Rounding to the nearest number with a `p`-bit significand, ties to even, over
any ordered field with a floor. The exponent range is unbounded. -/

namespace Rounding

variable {K : Type*} [Field K] [LinearOrder K] [IsStrictOrderedRing K] [FloorRing K]

/-- The nearest integer; a value halfway between two goes to the even one. -/
def roundEven (x : K) : ℤ :=
  if x < ⌊x⌋ + 1 / 2 then ⌊x⌋
  else if ⌊x⌋ + 1 / 2 < x then ⌊x⌋ + 1
  else if Even ⌊x⌋ then ⌊x⌋ else ⌊x⌋ + 1

/-- The exponent of the last place of `x` in a format with `p` significant bits. -/
def exponent (p : ℕ) (x : K) : ℤ := Int.log 2 |x| - (p - 1)

/-- The number with a `p`-bit significand nearest to `x`. -/
def roundBits (p : ℕ) (x : K) : K :=
  roundEven (x / 2 ^ exponent p x) * 2 ^ exponent p x

/-! ### The nearest integer -/

/-- `x` is rounded down to `k` or below: it does not pass the midpoint after `k`,
and reaches it only when `k` is the even neighbour. -/
def WithinHalf (x : K) (k : ℤ) : Prop :=
  if Even k then x ≤ k + 1 / 2 else x < k + 1 / 2

theorem roundEven_le_iff (x : K) (k : ℤ) : roundEven x ≤ k ↔ WithinHalf x k := by
  have hlo : (⌊x⌋ : K) ≤ x := Int.floor_le x
  have hhi : x < ⌊x⌋ + 1 := Int.lt_floor_add_one x
  have hbounds : ⌊x⌋ ≤ roundEven x ∧ roundEven x ≤ ⌊x⌋ + 1 := by
    unfold roundEven
    split_ifs <;> omega
  rcases lt_trichotomy k ⌊x⌋ with hk | hk | hk
  · -- `k` lies below the floor, so both sides fail
    have hcast : (k : K) + 1 ≤ ⌊x⌋ := by exact_mod_cast hk
    have hx : ¬ WithinHalf x k := by
      unfold WithinHalf
      split_ifs <;> intro h <;> linarith
    exact iff_of_false (by omega) hx
  · subst hk
    unfold roundEven WithinHalf
    split_ifs with h₁ h₂ h₃ h₃ h₃ <;> constructor <;> intro h <;> first | omega | linarith
  · have hcast : (⌊x⌋ : K) + 1 ≤ k := by exact_mod_cast hk
    have hx : WithinHalf x k := by
      unfold WithinHalf
      split_ifs <;> linarith
    exact iff_of_true (by omega) hx

theorem roundEven_intCast (n : ℤ) : roundEven (n : K) = n := by
  simp [roundEven]

theorem le_roundEven_of_le {x : K} {n : ℤ} (h : (n : K) ≤ x) : n ≤ roundEven x := by
  by_contra hlt
  have hle : roundEven x ≤ n - 1 := by omega
  rw [roundEven_le_iff] at hle
  unfold WithinHalf at hle
  push_cast at hle
  split_ifs at hle <;> linarith

theorem roundEven_le_of_le {x : K} {n : ℤ} (h : x ≤ n) : roundEven x ≤ n := by
  rw [roundEven_le_iff]
  unfold WithinHalf
  split_ifs <;> linarith

/-! ### One binade -/

theorem zpow_exponent_pos (p : ℕ) (x : K) : (0 : K) < 2 ^ exponent p x := by positivity

/-- The scaled significand of a positive number lies in `[2 ^ (p - 1), 2 ^ p)`. -/
theorem significand_bounds (p : ℕ) (hp : 0 < p) {x : K} (hx : 0 < x) :
    ((2 ^ (p - 1) : ℕ) : K) ≤ x / 2 ^ exponent p x ∧ x / 2 ^ exponent p x < ((2 ^ p : ℕ) : K) := by
  have hb : 1 < 2 := one_lt_two
  have hlo : (2 : K) ^ Int.log 2 x ≤ x := by exact_mod_cast Int.zpow_log_le_self hb hx
  have hhi : x < (2 : K) ^ (Int.log 2 x + 1) := by exact_mod_cast Int.lt_zpow_succ_log_self hb x
  have hpos := zpow_exponent_pos p x
  have hexp : exponent p x = Int.log 2 x - (p - 1) := by rw [exponent, abs_of_pos hx]
  constructor
  · rw [le_div_iff₀ hpos]
    calc ((2 ^ (p - 1) : ℕ) : K) * 2 ^ exponent p x
        = 2 ^ (((p - 1 : ℕ) : ℤ) + exponent p x) := by
          rw [zpow_add₀ two_ne_zero]; simp
      _ = 2 ^ Int.log 2 x := by congr 1; omega
      _ ≤ x := hlo
  · rw [div_lt_iff₀ hpos]
    calc x < 2 ^ (Int.log 2 x + 1) := hhi
      _ = 2 ^ ((p : ℤ) + exponent p x) := by congr 1; omega
      _ = ((2 ^ p : ℕ) : K) * 2 ^ exponent p x := by
          rw [zpow_add₀ two_ne_zero]; simp

/-- A rounded positive number is a `p`-bit significand times a power of two. -/
theorem roundBits_repr (p : ℕ) (hp : 0 < p) {x : K} (hx : 0 < x) :
    ∃ k : ℕ, ∃ g : ℤ, 2 ^ (p - 1) ≤ k ∧ k < 2 ^ p ∧ exponent p x ≤ g ∧
      roundBits p x = k * 2 ^ g := by
  obtain ⟨hlo, hhi⟩ := significand_bounds p hp hx
  have hk₁ : ((2 ^ (p - 1) : ℕ) : ℤ) ≤ roundEven (x / 2 ^ exponent p x) :=
    le_roundEven_of_le (by exact_mod_cast hlo)
  have hk₂ : roundEven (x / 2 ^ exponent p x) ≤ ((2 ^ p : ℕ) : ℤ) :=
    roundEven_le_of_le (by exact_mod_cast hhi.le)
  obtain ⟨k, hk⟩ : ∃ k : ℕ, roundEven (x / 2 ^ exponent p x) = k :=
    ⟨_, (Int.toNat_of_nonneg ((Int.natCast_nonneg _).trans hk₁)).symm⟩
  rw [hk] at hk₁ hk₂
  rcases Nat.lt_or_ge k (2 ^ p) with hlt | hge
  · exact ⟨k, exponent p x, by exact_mod_cast hk₁, hlt, le_rfl, by simp [roundBits, hk]⟩
  · -- rounding carried into the next binade
    have hkp : k = 2 ^ p := le_antisymm (by exact_mod_cast hk₂) hge
    have hsucc : 2 ^ p = 2 ^ (p - 1) * 2 := by
      rw [← pow_succ]; congr 1; omega
    refine ⟨2 ^ (p - 1), exponent p x + 1, le_rfl, ?_, by omega, ?_⟩
    · exact Nat.pow_lt_pow_right one_lt_two (by omega)
    · rw [roundBits, hk, hkp, hsucc, zpow_add₀ two_ne_zero]
      push_cast
      ring

/-- **Rounding cell.** Between the neighbours `k * 2 ^ g` and `(k + 1) * 2 ^ g` the
midpoint decides which numbers are rounded to the lower one or below. -/
theorem roundBits_le_iff (p : ℕ) (hp : 0 < p) {x : K} (hx : 0 < x) {k : ℕ}
    (hk₁ : 2 ^ (p - 1) ≤ k) (hk₂ : k < 2 ^ p) (g : ℤ) :
    roundBits p x ≤ k * 2 ^ g ↔ WithinHalf (x / 2 ^ g) k := by
  obtain ⟨hlo, hhi⟩ := significand_bounds p hp hx
  have hpos := zpow_exponent_pos (K := K) p x
  have hg : (0 : K) < 2 ^ g := by positivity
  have hsucc : 2 ^ p = 2 ^ (p - 1) * 2 := by
    rw [← pow_succ]; congr 1; omega
  have hk₁' : ((2 ^ (p - 1) : ℕ) : K) ≤ k := by exact_mod_cast hk₁
  have hk₂' : (k : K) + 1 ≤ ((2 ^ p : ℕ) : K) := by exact_mod_cast hk₂
  rw [le_div_iff₀ hpos] at hlo
  rw [div_lt_iff₀ hpos] at hhi
  rcases lt_trichotomy (exponent p x) g with he | he | he
  · -- `x` lies in a lower binade than `k * 2 ^ g`
    have hstep : (2 : K) * 2 ^ exponent p x ≤ 2 ^ g := by
      rw [← zpow_one_add₀ two_ne_zero]
      exact zpow_le_zpow_right₀ one_le_two (by omega)
    have hbin : ((2 ^ p : ℕ) : K) * 2 ^ exponent p x ≤ k * 2 ^ g := by
      calc ((2 ^ p : ℕ) : K) * 2 ^ exponent p x
          = ((2 ^ (p - 1) : ℕ) : K) * (2 * 2 ^ exponent p x) := by
            rw [hsucc]; push_cast; ring
        _ ≤ ((2 ^ (p - 1) : ℕ) : K) * 2 ^ g := by gcongr
        _ ≤ k * 2 ^ g := by gcongr
    have hround : roundBits p x ≤ k * 2 ^ g := by
      refine le_trans ?_ hbin
      unfold roundBits
      gcongr
      have hdiv : x / 2 ^ exponent p x ≤ (((2 ^ p : ℕ) : ℤ) : K) := by
        rw [div_le_iff₀ hpos]
        exact_mod_cast hhi.le
      exact_mod_cast roundEven_le_of_le hdiv
    have hx' : x / 2 ^ g < k := by rw [div_lt_iff₀ hg]; exact hhi.trans_le hbin
    refine iff_of_true hround ?_
    unfold WithinHalf
    push_cast
    split_ifs <;> linarith
  · subst he
    rw [roundBits, mul_le_mul_iff_of_pos_right hpos, ← roundEven_le_iff]
    exact_mod_cast Iff.rfl
  · -- `x` lies in a higher binade
    have hstep : (2 : K) * 2 ^ g ≤ 2 ^ exponent p x := by
      rw [← zpow_one_add₀ two_ne_zero]
      exact zpow_le_zpow_right₀ one_le_two (by omega)
    have hbin : (k + 1 : K) * 2 ^ g ≤ ((2 ^ (p - 1) : ℕ) : K) * 2 ^ exponent p x := by
      calc (k + 1 : K) * 2 ^ g ≤ ((2 ^ p : ℕ) : K) * 2 ^ g := by gcongr
        _ = ((2 ^ (p - 1) : ℕ) : K) * (2 * 2 ^ g) := by rw [hsucc]; push_cast; ring
        _ ≤ ((2 ^ (p - 1) : ℕ) : K) * 2 ^ exponent p x := by gcongr
    have hround : (k + 1 : K) * 2 ^ g ≤ roundBits p x := by
      refine le_trans hbin ?_
      unfold roundBits
      gcongr
      have hdiv : (((2 ^ (p - 1) : ℕ) : ℤ) : K) ≤ x / 2 ^ exponent p x := by
        rw [le_div_iff₀ hpos]
        exact_mod_cast hlo
      exact_mod_cast le_roundEven_of_le hdiv
    have hx' : (k + 1 : K) ≤ x / 2 ^ g := by rw [le_div_iff₀ hg]; exact hbin.trans hlo
    refine iff_of_false ?_ ?_
    · rw [not_le]
      refine lt_of_lt_of_le ?_ hround
      gcongr
      exact lt_add_one _
    · unfold WithinHalf
      push_cast
      split_ifs <;> intro h <;> linarith

theorem WithinHalf.mono {x y : K} {k : ℤ} (h : WithinHalf y k) (hxy : x ≤ y) :
    WithinHalf x k := by
  unfold WithinHalf at *
  split_ifs at * <;> linarith

theorem roundBits_mono (p : ℕ) (hp : 0 < p) {x y : K} (hx : 0 < x) (hxy : x ≤ y) :
    roundBits p x ≤ roundBits p y := by
  obtain ⟨k, g, hk₁, hk₂, _, hy⟩ := roundBits_repr p hp (hx.trans_le hxy)
  have hg : (0 : K) < 2 ^ g := by positivity
  have hcell := (roundBits_le_iff p hp (hx.trans_le hxy) hk₁ hk₂ g).mp hy.le
  rw [hy, roundBits_le_iff p hp hx hk₁ hk₂ g]
  exact hcell.mono (div_le_div_of_nonneg_right hxy hg.le)

/-! ### Natural numbers -/

/-- A number with at most `p` bits is kept exactly. -/
theorem roundBits_natCast_of_lt (p : ℕ) {n : ℕ} (hn : n < 2 ^ p) :
    roundBits p (n : K) = n := by
  rcases Nat.eq_zero_or_pos n with rfl | hpos
  · simp [roundBits, roundEven]
  · have hlog : Nat.log 2 n < p := Nat.log_lt_of_lt_pow hpos.ne' hn
    have hexp : exponent p (n : K) = Nat.log 2 n - (p - 1) := by
      rw [exponent, abs_of_pos (by exact_mod_cast hpos), Int.log_natCast]
    obtain ⟨d, hd⟩ : ∃ d : ℕ, exponent p (n : K) = -d :=
      ⟨p - 1 - Nat.log 2 n, by omega⟩
    have hscaled : (n : K) / 2 ^ exponent p (n : K) = ((n * 2 ^ d : ℤ) : K) := by
      rw [hd, zpow_neg, div_inv_eq_mul]
      push_cast
      rw [zpow_natCast]
    rw [roundBits, hscaled, roundEven_intCast, ← hscaled, div_mul_cancel₀]
    exact (zpow_exponent_pos p _).ne'

/-- Some midpoint of two neighbouring `p`-bit numbers lies between `a` and `b`:
`(2 * k + 1) * 2 ^ e` is halfway between `k * 2 ^ (e + 1)` and the next one, and
itself belongs to the side of the even significand. -/
def MidpointBetween (p a b : ℕ) : Prop :=
  ∃ k e : ℕ, 2 ^ (p - 1) ≤ k ∧ k < 2 ^ p ∧
    if Even k then a ≤ (2 * k + 1) * 2 ^ e ∧ (2 * k + 1) * 2 ^ e < b
    else a < (2 * k + 1) * 2 ^ e ∧ (2 * k + 1) * 2 ^ e ≤ b

theorem withinHalf_natCast_div (x k e : ℕ) :
    WithinHalf ((x : K) / 2 ^ ((e : ℤ) + 1)) k ↔
      if Even k then x ≤ (2 * k + 1) * 2 ^ e else x < (2 * k + 1) * 2 ^ e := by
  have hpos : (0 : K) < 2 ^ ((e : ℤ) + 1) := by positivity
  have hmid : ((k : K) + 1 / 2) * 2 ^ ((e : ℤ) + 1) = (((2 * k + 1) * 2 ^ e : ℕ) : K) := by
    rw [zpow_add_one₀ two_ne_zero, zpow_natCast]
    push_cast
    ring
  unfold WithinHalf
  simp only [Int.cast_natCast, div_le_iff₀ hpos, div_lt_iff₀ hpos, hmid, Nat.cast_le, Nat.cast_lt,
    Int.even_coe_nat]

/-- Two natural numbers are rounded to different values exactly when the smaller one
is kept exactly or a midpoint separates them. -/
theorem roundBits_ne_iff (p : ℕ) (hp : 0 < p) {a b : ℕ} (hab : a < b) :
    roundBits p (a : K) ≠ roundBits p (b : K) ↔ a < 2 ^ p ∨ MidpointBetween p a b := by
  have hbpos : (0 : K) < b := by exact_mod_cast (Nat.zero_le a).trans_lt hab
  have hab' : (a : K) ≤ b := by exact_mod_cast hab.le
  constructor
  · intro hne
    by_contra hcon
    obtain ⟨hbig, hmid⟩ := not_or.mp hcon
    rw [not_lt] at hbig
    have hapos : (0 : K) < a := by exact_mod_cast (Nat.two_pow_pos p).trans_le hbig
    obtain ⟨k, g, hk₁, hk₂, hexp, ha⟩ := roundBits_repr p hp hapos
    -- `a` has more than `p` bits, so its last place is a positive power of two
    have hlog : p ≤ Nat.log 2 a := Nat.le_log_of_pow_le one_lt_two hbig
    obtain ⟨e, rfl⟩ : ∃ e : ℕ, g = e + 1 := by
      rw [exponent, abs_of_pos hapos, Int.log_natCast] at hexp
      exact ⟨(g - 1).toNat, by omega⟩
    have hcell := (roundBits_le_iff p hp hapos hk₁ hk₂ _).mp ha.le
    rw [withinHalf_natCast_div] at hcell
    refine hne (le_antisymm (roundBits_mono p hp hapos hab') ?_)
    rw [ha, roundBits_le_iff p hp hbpos hk₁ hk₂, withinHalf_natCast_div]
    by_contra hb
    refine hmid ⟨k, e, hk₁, hk₂, ?_⟩
    split_ifs at hcell hb ⊢ <;> omega
  · rintro (ha | ⟨k, e, hk₁, hk₂, hmid⟩) heq
    · rw [roundBits_natCast_of_lt p ha] at heq
      rcases Nat.lt_or_ge (a + 1) (2 ^ p) with hlt | hge
      · have hsucc : (0 : K) < ((a + 1 : ℕ) : K) := by exact_mod_cast Nat.succ_pos a
        have hmono := roundBits_mono p hp hsucc (Nat.cast_le.mpr (Nat.succ_le_of_lt hab))
        rw [roundBits_natCast_of_lt p hlt, ← heq, Nat.cast_le] at hmono
        omega
      · -- `a` is the largest `p`-bit number, and `b` already lies past its midpoint
        have hpow : 2 ^ (p - 1) < 2 ^ p := Nat.pow_lt_pow_right one_lt_two (by omega)
        have hcell := (roundBits_le_iff p hp hbpos (by omega : 2 ^ (p - 1) ≤ a) ha 0).mp
          (by simpa using heq.ge)
        have hle : (b : K) ≤ a + 1 / 2 := by
          unfold WithinHalf at hcell
          push_cast at hcell
          split_ifs at hcell <;> simp only [zpow_zero, div_one] at hcell <;> linarith
        have hsucc : (a : K) + 1 ≤ b := by exact_mod_cast hab
        linarith
    · have hapos : (0 : K) < a ∨ a = 0 := by
        rcases Nat.eq_zero_or_pos a with h | h
        · exact Or.inr h
        · exact Or.inl (by exact_mod_cast h)
      have hcell : roundBits p (a : K) ≤ k * 2 ^ ((e : ℤ) + 1) := by
        rcases hapos with hapos | rfl
        · rw [roundBits_le_iff p hp hapos hk₁ hk₂, withinHalf_natCast_div]
          split_ifs at hmid ⊢ <;> omega
        · rw [roundBits_natCast_of_lt p (Nat.two_pow_pos p)]
          push_cast
          positivity
      rw [heq, roundBits_le_iff p hp hbpos hk₁ hk₂, withinHalf_natCast_div] at hcell
      split_ifs at hmid hcell <;> omega

end Rounding
