import Mathlib.Algebra.Order.Field.Power
import Mathlib.Tactic.FieldSimp
import Mathlib.Tactic.Positivity
import PageBlocks.Proofs.WholeSeconds

/-!
# Rounding keeps the order

Rounding a larger quotient over the same denominator does not give a smaller double
(`le_ofRatio_pos`, `le_ofRatio_neg`), so a clock that goes forward is never read as an earlier
second (`toSeconds_mono`).

Doubles are compared as rational numbers: the mantissa of a quotient is at most `2 ^ 53`, and at
least `2 ^ 52` if its exponent is not the smallest one, so a larger exponent stands for a number
that is not smaller.
-/

set_option autoImplicit false

namespace PageBlocks.Number

open PageBlocks.Time

theorem cast_power (e : Int) : (power 2 e : ℚ) = power 2 (-e) * (2 : ℚ) ^ e := by
  have hPower : ∀ n : Nat, power 2 (n : Int) = 2 ^ n := fun n => by
    rw [power, Int.toNat_natCast]
    rfl
  obtain ⟨n, rfl | rfl⟩ := Int.eq_nat_or_neg e
  · rw [power_of_nonpos 2 (by omega : -(n : Int) ≤ 0), hPower, zpow_natCast]
    push_cast
    ring
  · rw [power_of_nonpos 2 (by omega : -(n : Int) ≤ 0), Int.neg_neg, hPower, zpow_neg, zpow_natCast]
    push_cast
    field_simp

namespace Binary64

/-! ## Quotients -/

variable {num num' den d : Nat}

/-- A rounded quotient is off by a half at most. -/
theorem divRound_bounds (n : Nat) (h : 0 < d) :
    2 * n ≤ d * (2 * divRound n d + 1) ∧ d * (2 * divRound n d) ≤ 2 * n + d := by
  have hSplit := Nat.div_add_mod n d
  have hRest := Nat.mod_lt n h
  unfold divRound
  dsimp only
  generalize n / d = q at hSplit ⊢
  generalize n % d = r at hSplit hRest ⊢
  split
  · constructor <;> nlinarith
  · split
    · constructor <;> nlinarith
    · rcases Nat.mod_two_eq_zero_or_one q with hEven | hOdd
      · rw [hEven]
        constructor <;> nlinarith
      · rw [hOdd]
        constructor <;> nlinarith

theorem divRound_mono (h : 0 < d) {n n' : Nat} (hLe : n ≤ n') : divRound n d ≤ divRound n' d := by
  have hFirst := (divRound_bounds n h).2
  have hSecond := (divRound_bounds n' h).1
  by_contra hLess
  rw [Nat.not_le] at hLess
  -- both numbers would lie on the half between two neighbours
  have hSame : n = n' := by nlinarith
  rw [hSame] at hLess
  exact hLess.false

/-- A quotient over powers of two as a rational number. -/
theorem mul_power_le_iff (hDen : 0 < den) (e : Int) (c : Nat) :
    num * power 2 (-e) ≤ c * (den * power 2 e) ↔ (num : ℚ) / den ≤ c * (2 : ℚ) ^ e := by
  have hDen' : (0 : ℚ) < den := by exact_mod_cast hDen
  have hOver : (0 : ℚ) < power 2 (-e) := by exact_mod_cast power_pos (by decide) _
  rw [div_le_iff₀ hDen', ← Nat.cast_le (α := ℚ)]
  push_cast
  rw [cast_power e]
  constructor
  · intro h
    refine le_of_mul_le_mul_right (h.trans_eq ?_) hOver
    ring
  · intro h
    refine (mul_le_mul_of_nonneg_right h hOver.le).trans_eq ?_
    ring

theorem le_mul_power_iff (hDen : 0 < den) (e : Int) (c : Nat) :
    c * (den * power 2 e) ≤ num * power 2 (-e) ↔ c * (2 : ℚ) ^ e ≤ (num : ℚ) / den := by
  have hDen' : (0 : ℚ) < den := by exact_mod_cast hDen
  have hOver : (0 : ℚ) < power 2 (-e) := by exact_mod_cast power_pos (by decide) _
  rw [le_div_iff₀ hDen', ← Nat.cast_le (α := ℚ)]
  push_cast
  rw [cast_power e]
  constructor
  · intro h
    refine le_of_mul_le_mul_right (Eq.trans_le ?_ h) hOver
    ring
  · intro h
    refine Eq.trans_le ?_ (mul_le_mul_of_nonneg_right h hOver.le)
    ring

/-! ## Exponents -/

theorem log2_bounds {n : Nat} (h : n ≠ 0) :
    (2 : ℚ) ^ (n.log2 : Int) ≤ n ∧ (n : ℚ) < (2 : ℚ) ^ (n.log2 + 1 : Int) := by
  refine ⟨?_, ?_⟩
  · rw [zpow_natCast]
    exact_mod_cast Nat.log2_self_le h
  · rw [← Nat.cast_succ, zpow_natCast]
    exact_mod_cast Nat.lt_log2_self

/-- The exponent of a quotient leaves fifty-three bits, of which the first one is used unless the
exponent is the smallest one. -/
theorem exponentFor_bounds (hNum : num ≠ 0) (hDen : 0 < den) :
    (num : ℚ) / den < (2 : ℚ) ^ (exponentFor num den + 53)
      ∧ (minExponent < exponentFor num den →
        (2 : ℚ) ^ (exponentFor num den + 52) ≤ (num : ℚ) / den) := by
  have hDen' : (0 : ℚ) < den := by exact_mod_cast hDen
  obtain ⟨hNumLow, hNumHigh⟩ := log2_bounds hNum
  obtain ⟨hDenLow, hDenHigh⟩ := log2_bounds hDen.ne'
  unfold exponentFor
  dsimp only
  generalize hk : (num.log2 : Int) - den.log2 = k
  -- the quotient lies between the powers of two next to that of the difference
  have hHigh : (num : ℚ) / den < (2 : ℚ) ^ (k + 1) := by
    rw [div_lt_iff₀ hDen']
    calc (num : ℚ) < (2 : ℚ) ^ (num.log2 + 1 : Int) := hNumHigh
      _ = (2 : ℚ) ^ (k + 1) * (2 : ℚ) ^ (den.log2 : Int) := by
        rw [← zpow_add₀ two_ne_zero]
        congr 1
        omega
      _ ≤ (2 : ℚ) ^ (k + 1) * den := by gcongr
  have hLow : (2 : ℚ) ^ (k - 1) ≤ (num : ℚ) / den := by
    rw [le_div_iff₀ hDen']
    calc (2 : ℚ) ^ (k - 1) * den ≤ (2 : ℚ) ^ (k - 1) * (2 : ℚ) ^ (den.log2 + 1 : Int) := by gcongr
      _ = (2 : ℚ) ^ (num.log2 : Int) := by
        rw [← zpow_add₀ two_ne_zero]
        congr 1
        omega
      _ ≤ num := hNumLow
  have hBelow : num * power 2 (-k) < den * power 2 k ↔ (num : ℚ) / den < (2 : ℚ) ^ k := by
    have hIff := @le_mul_power_iff num den hDen k 1
    rw [Nat.one_mul, Nat.cast_one, one_mul] at hIff
    rw [← not_le, ← not_le, hIff]
  by_cases h : num * power 2 (-k) < den * power 2 k
  · rw [decide_eq_true h, if_pos rfl]
    refine ⟨(hBelow.mp h).trans_le (zpow_le_zpow_right₀ one_le_two (by omega)), fun hMin => ?_⟩
    have hSame : max (k - 53) minExponent + 52 = k - 1 := by omega
    rw [hSame]
    exact hLow
  · rw [decide_eq_false h, if_neg Bool.false_ne_true]
    refine ⟨hHigh.trans_le (zpow_le_zpow_right₀ one_le_two (by omega)), fun hMin => ?_⟩
    have hSame : max (k - 52) minExponent + 52 = k := by omega
    rw [hSame]
    exact not_lt.mp fun hLess => h (hBelow.mpr hLess)

theorem minExponent_le (num den : Nat) : minExponent ≤ exponentFor num den := le_max_right _ _

theorem exponentFor_mono (hNum : num ≠ 0) (hDen : 0 < den) (hLe : num ≤ num') :
    exponentFor num den ≤ exponentFor num' den := by
  by_contra hLess
  rw [not_le] at hLess
  have hNum' : num' ≠ 0 := by omega
  have hFirst := (exponentFor_bounds hNum hDen).2
    (lt_of_le_of_lt (minExponent_le num' den) hLess)
  have hSecond := (exponentFor_bounds hNum' hDen).1
  have hOrder : (num : ℚ) / den ≤ (num' : ℚ) / den := by gcongr
  have hPowers : (2 : ℚ) ^ (exponentFor num' den + 53) ≤ (2 : ℚ) ^ (exponentFor num den + 52) :=
    zpow_le_zpow_right₀ one_le_two (by omega)
  linarith

/-! ## Mantissas -/

/-- The mantissa of a quotient before it is brought below `2 ^ 53`. -/
def mantissaFor (num den : Nat) : Nat :=
  divRound (num * power 2 (-exponentFor num den)) (den * power 2 (exponentFor num den))

theorem mantissaFor_bounds (hNum : num ≠ 0) (hDen : 0 < den) :
    mantissaFor num den ≤ 2 ^ 53
      ∧ (minExponent < exponentFor num den → 2 ^ 52 ≤ mantissaFor num den) := by
  obtain ⟨hHigh, hLow⟩ := exponentFor_bounds hNum hDen
  have hOver : 0 < den * power 2 (exponentFor num den) := Nat.mul_pos hDen (power_pos (by decide) _)
  constructor
  · rw [← divRound_mul (2 ^ 53) hOver]
    refine divRound_mono hOver ((mul_power_le_iff hDen _ _).mpr (hHigh.le.trans_eq ?_))
    rw [zpow_add₀ two_ne_zero, mul_comm]
    norm_num
  · intro hMin
    rw [← divRound_mul (2 ^ 52) hOver]
    refine divRound_mono hOver ((le_mul_power_iff hDen _ _).mpr (Eq.trans_le ?_ (hLow hMin)))
    rw [zpow_add₀ two_ne_zero, mul_comm]
    norm_num

/-- A mantissa and an exponent as a rational number. -/
def weigh (x : Nat × Int) : ℚ := x.1 * (2 : ℚ) ^ x.2

/-- The mantissa and the exponent of a quotient, rounded. -/
def rounded (num den : Nat) : Nat × Int :=
  if num = 0 then (0, minExponent)
  else if mantissaFor num den = power 2 53 then (power 2 52, exponentFor num den + 1)
  else (mantissaFor num den, exponentFor num den)

/-- The double for a mantissa with an exponent that may be too large. -/
def capped (negative : Bool) (x : Nat × Int) : Binary64 :=
  if x.2 > maxExponent then infinity negative else finite negative x.1 x.2

theorem ofRatio_eq (negative : Bool) (num den : Nat) :
    ofRatio negative num den = capped negative (rounded num den) := by
  unfold ofRatio rounded mantissaFor
  by_cases hNum : num = 0
  · rw [if_pos hNum, if_pos hNum]
    rfl
  · rw [if_neg hNum, if_neg hNum]
    rfl

theorem weigh_rounded (hNum : num ≠ 0) (den : Nat) :
    weigh (rounded num den) = mantissaFor num den * (2 : ℚ) ^ exponentFor num den := by
  unfold rounded weigh
  rw [if_neg hNum]
  split
  · rename_i hFull
    rw [hFull, zpow_add₀ two_ne_zero]
    have hHalf : power 2 53 = power 2 52 * 2 := by decide
    have hPower : (power 2 53 : ℚ) = power 2 52 * 2 := by exact_mod_cast hHalf
    rw [hPower, zpow_one]
    ring
  · rfl

theorem weigh_nonneg (x : Nat × Int) : 0 ≤ weigh x := by
  unfold weigh
  positivity

theorem minExponent_le_rounded (num den : Nat) : minExponent ≤ (rounded num den).2 := by
  have hLe := minExponent_le num den
  unfold rounded
  split
  · exact le_rfl
  · split <;> dsimp only <;> omega

/-- A larger quotient is not rounded to a smaller number. -/
theorem rounded_mono (hDen : 0 < den) (hLe : num ≤ num') :
    (rounded num den).2 ≤ (rounded num' den).2
      ∧ weigh (rounded num den) ≤ weigh (rounded num' den) := by
  rcases eq_or_ne num 0 with rfl | hNum
  · refine ⟨minExponent_le_rounded num' den, Eq.trans_le ?_ (weigh_nonneg _)⟩
    unfold weigh rounded
    rw [if_pos rfl, Nat.cast_zero, zero_mul]
  have hNum' : num' ≠ 0 := by omega
  have hExponents := exponentFor_mono hNum hDen hLe
  have hBounds := mantissaFor_bounds hNum hDen
  have hBounds' := mantissaFor_bounds hNum' hDen
  have hFull : power 2 53 = 2 ^ 53 := rfl
  rw [weigh_rounded hNum, weigh_rounded hNum']
  rcases hExponents.eq_or_lt with hSame | hLess
  · have hMantissas : mantissaFor num den ≤ mantissaFor num' den := by
      unfold mantissaFor
      rw [← hSame]
      exact divRound_mono (Nat.mul_pos hDen (power_pos (by decide) _))
        (Nat.mul_le_mul_right _ hLe)
    refine ⟨?_, ?_⟩
    · unfold rounded
      rw [if_neg hNum, if_neg hNum']
      split
      · rename_i hHere
        rw [if_pos (by omega), hSame]
      · split
        · rw [hSame]
          exact (lt_add_one _).le
        · exact hSame.le
    · rw [← hSame]
      have hCast : (mantissaFor num den : ℚ) ≤ mantissaFor num' den := by exact_mod_cast hMantissas
      gcongr
  · refine ⟨?_, ?_⟩
    · unfold rounded
      rw [if_neg hNum, if_neg hNum']
      split <;> split <;> dsimp only <;> omega
    · have hUpper : (mantissaFor num den : ℚ) ≤ 2 ^ 53 := by exact_mod_cast hBounds.1
      have hLower : (2 : ℚ) ^ 52 ≤ mantissaFor num' den := by
        exact_mod_cast hBounds'.2 (lt_of_le_of_lt (minExponent_le num den) hLess)
      calc (mantissaFor num den : ℚ) * (2 : ℚ) ^ exponentFor num den
          ≤ 2 ^ 53 * (2 : ℚ) ^ exponentFor num den := by gcongr
        _ = 2 ^ 52 * (2 : ℚ) ^ (exponentFor num den + 1) := by
          rw [zpow_add₀ two_ne_zero, zpow_one]
          ring
        _ ≤ 2 ^ 52 * (2 : ℚ) ^ exponentFor num' den := by
          have hPowers : (2 : ℚ) ^ (exponentFor num den + 1) ≤ (2 : ℚ) ^ exponentFor num' den :=
            zpow_le_zpow_right₀ one_le_two (by omega)
          gcongr
        _ ≤ mantissaFor num' den * (2 : ℚ) ^ exponentFor num' den := by gcongr

/-! ## Comparing -/

/-- A finite value as a rational number. -/
def scaledValue (negative : Bool) (m : Nat) (e : Int) : ℚ :=
  (if negative then -(m : ℚ) else m) * (2 : ℚ) ^ e

theorem scaledValue_eq (negative : Bool) (m : Nat) (e : Int) :
    scaledValue negative m e
      = ((if negative then -(m : Int) else m : Int) : ℚ) * (2 : ℚ) ^ e := by
  cases negative with
  | false => rfl
  | true =>
    unfold scaledValue
    push_cast
    rfl

/-- A finite value over a smaller exponent. -/
theorem aligned_value (negative : Bool) (m : Nat) {e g : Int} (hLe : g ≤ e) :
    (((if negative then -(m : Int) else m) * power 2 (e - g) : Int) : ℚ) * (2 : ℚ) ^ g
      = scaledValue negative m e := by
  have hPower : (power 2 (e - g) : ℚ) = (2 : ℚ) ^ (e - g) := by
    rw [cast_power, power_of_nonpos 2 (by omega : -(e - g) ≤ 0), Nat.cast_one, one_mul]
  rw [scaledValue_eq, Int.cast_mul, Int.cast_natCast, hPower, mul_assoc, ← zpow_add₀ two_ne_zero,
    sub_add_cancel]

theorem le_finite_iff (s t : Bool) (m n : Nat) (e f : Int) :
    le (finite s m e) (finite t n f) = true ↔ scaledValue s m e ≤ scaledValue t n f := by
  unfold le lt same align
  dsimp only
  rw [Bool.or_eq_true, decide_eq_true_eq, decide_eq_true_eq, ← Int.le_iff_lt_or_eq,
    ← aligned_value s m (Int.min_le_left e f), ← aligned_value t n (Int.min_le_right e f)]
  have hFactor : (0 : ℚ) < (2 : ℚ) ^ min e f := by positivity
  rw [mul_le_mul_iff_left₀ hFactor, Int.cast_le]

theorem lt_finite_iff (s t : Bool) (m n : Nat) (e f : Int) :
    lt (finite s m e) (finite t n f) = true ↔ scaledValue s m e < scaledValue t n f := by
  unfold lt align
  dsimp only
  rw [decide_eq_true_eq, ← aligned_value s m (Int.min_le_left e f),
    ← aligned_value t n (Int.min_le_right e f)]
  have hFactor : (0 : ℚ) < (2 : ℚ) ^ min e f := by positivity
  rw [mul_lt_mul_iff_left₀ hFactor, Int.cast_lt]

/-- A rational number between the two infinities. -/
def between (x : ℚ) : WithBot (WithTop ℚ) := ((x : WithTop ℚ) : WithBot (WithTop ℚ))

theorem between_le_between {x y : ℚ} : between x ≤ between y ↔ x ≤ y := by
  unfold between
  rw [WithBot.coe_le_coe, WithTop.coe_le_coe]

theorem between_lt_top (x : ℚ) : between x < ⊤ := WithBot.coe_lt_coe.mpr (WithTop.coe_lt_top x)

/-- Where a double is in the order of the rational numbers and the two infinities. -/
def level : Binary64 → WithBot (WithTop ℚ)
  | nan => ⊥
  | infinity negative => if negative then ⊥ else ⊤
  | finite negative m e => between (scaledValue negative m e)

/-- Comparing doubles is comparing their levels, except that nothing compares to a
not-a-number. -/
theorem le_iff_level {a b : Binary64} :
    le a b = true ↔ a ≠ nan ∧ b ≠ nan ∧ level a ≤ level b := by
  cases a with
  | nan => exact ⟨nofun, fun h => absurd rfl h.1⟩
  | infinity s =>
    cases b with
    | nan => cases s <;> exact ⟨nofun, fun h => absurd rfl h.2.1⟩
    | infinity t => cases s <;> cases t <;> simp [le, lt, same, level]
    | finite t n f => cases s <;> simp [le, lt, same, level, between]
  | finite s m e =>
    cases b with
    | nan => exact ⟨nofun, fun h => absurd rfl h.2.1⟩
    | infinity t => cases t <;> simp [le, lt, same, level, between]
    | finite t n f =>
      rw [le_finite_iff, level, level, between_le_between]
      exact ⟨fun h => ⟨nofun, nofun, h⟩, fun h => h.2.2⟩

/-- So is telling which of two doubles is smaller. -/
theorem lt_iff_level {a b : Binary64} :
    lt a b = true ↔ a ≠ nan ∧ b ≠ nan ∧ level a < level b := by
  cases a with
  | nan => exact ⟨nofun, fun h => absurd rfl h.1⟩
  | infinity s =>
    cases b with
    | nan => cases s <;> exact ⟨nofun, fun h => absurd rfl h.2.1⟩
    | infinity t => cases s <;> cases t <;> simp [lt, level]
    | finite t n f => cases s <;> simp [lt, level, between]
  | finite s m e =>
    cases b with
    | nan => cases s <;> exact ⟨nofun, fun h => absurd rfl h.2.1⟩
    | infinity t => cases t <;> simp [lt, level, between_lt_top]
    | finite t n f =>
      rw [lt_finite_iff, level, level, between, between, WithBot.coe_lt_coe, WithTop.coe_lt_coe]
      exact ⟨fun h => ⟨nofun, nofun, h⟩, fun h => h.2.2⟩

/-- Doubles on one level are the same number. -/
theorem same_of_level_eq {a b : Binary64} (ha : a ≠ nan) (hb : b ≠ nan)
    (h : level a = level b) : same a b = true := by
  have hLe : le a b = true := le_iff_level.mpr ⟨ha, hb, h.le⟩
  have hNotLess : lt a b = false := by
    rw [Bool.eq_false_iff]
    intro hLess
    exact absurd h (lt_iff_level.mp hLess).2.2.ne
  rw [le, hNotLess, Bool.false_or] at hLe
  exact hLe

theorem le_of_le_of_le {a b c : Binary64} (h : le a b = true) (h' : le b c = true) :
    le a c = true := by
  rw [le_iff_level] at h h' ⊢
  exact ⟨h.1, h'.2.1, h.2.2.trans h'.2.2⟩

theorem capped_ne_nan (negative : Bool) (x : Nat × Int) : capped negative x ≠ nan := by
  unfold capped
  split <;> nofun

theorem level_capped_false (x : Nat × Int) :
    level (capped false x) = if x.2 > maxExponent then ⊤ else between (weigh x) := by
  unfold capped
  split <;> rfl

theorem level_capped_true (x : Nat × Int) :
    level (capped true x) = if x.2 > maxExponent then ⊥ else between (-weigh x) := by
  unfold capped weigh
  split
  · rfl
  · rw [level, scaledValue, if_pos rfl, neg_mul]

/-- Rounding keeps the order of positive quotients. -/
theorem le_ofRatio_pos (hDen : 0 < den) (hLe : num ≤ num') :
    le (ofRatio false num den) (ofRatio false num' den) = true := by
  obtain ⟨hExponents, hWeights⟩ := rounded_mono hDen hLe
  rw [ofRatio_eq, ofRatio_eq, le_iff_level, level_capped_false, level_capped_false]
  refine ⟨capped_ne_nan _ _, capped_ne_nan _ _, ?_⟩
  split
  · rw [if_pos (by omega)]
  · split
    · exact le_top
    · exact between_le_between.mpr hWeights

/-- Rounding keeps the order of negative quotients. -/
theorem le_ofRatio_neg (hDen : 0 < den) (hLe : num ≤ num') :
    le (ofRatio true num' den) (ofRatio true num den) = true := by
  obtain ⟨hExponents, hWeights⟩ := rounded_mono hDen hLe
  rw [ofRatio_eq, ofRatio_eq, le_iff_level, level_capped_true, level_capped_true]
  refine ⟨capped_ne_nan _ _, capped_ne_nan _ _, ?_⟩
  split
  · exact bot_le
  · rw [if_neg (by omega)]
    exact between_le_between.mpr (neg_le_neg hWeights)

/-- A negative quotient is not rounded to a larger number than a positive one. -/
theorem le_ofRatio_neg_pos :
    le (ofRatio true num den) (ofRatio false num' den) = true := by
  rw [ofRatio_eq, ofRatio_eq, le_iff_level, level_capped_true, level_capped_false]
  refine ⟨capped_ne_nan _ _, capped_ne_nan _ _, ?_⟩
  split
  · exact bot_le
  · split
    · exact le_top
    · exact between_le_between.mpr ((neg_nonpos.mpr (weigh_nonneg _)).trans (weigh_nonneg _))

/-! ## Clocks -/

/-- A clock that goes forward is not read as an earlier second. -/
theorem toSeconds_mono {t t' : Instant} (h : t.micros ≤ t'.micros) :
    le t.toSeconds t'.toSeconds = true := by
  unfold Instant.toSeconds
  by_cases hNeg : t.micros < 0
  · rw [decide_eq_true hNeg]
    by_cases hNeg' : t'.micros < 0
    · rw [decide_eq_true hNeg']
      exact le_ofRatio_neg (by decide) (by omega)
    · rw [decide_eq_false hNeg']
      exact le_ofRatio_neg_pos
  · have hNeg' : ¬t'.micros < 0 := by omega
    rw [decide_eq_false hNeg, decide_eq_false hNeg']
    exact le_ofRatio_pos (by decide) (by omega)

end Binary64

end PageBlocks.Number
