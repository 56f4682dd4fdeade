import PageBlocks.Proofs.Rounding

/-!
# How far rounding goes

Below `2 ^ 32` neighbouring doubles are at most `2 ^ (-21)` apart, so rounding moves a quotient by
at most half of that (`near_ofRatio`). A clock counts microseconds. Reading it, adding whole seconds
and reading it again rounds three times, which is less than a microsecond in all: comparing the
doubles is comparing the microseconds (`le_of_le_toSeconds`).
-/

set_option autoImplicit false

namespace PageBlocks.Number.Binary64

open PageBlocks.Time

/-! ## One rounding -/

/-- Half of the largest distance between neighbouring doubles below `2 ^ 32`. -/
def halfGap : ℚ := (2 : ℚ) ^ (-22 : Int)

/-- A double is finite, and no farther from a number than rounding goes below `2 ^ 32`. -/
def Near (x : Binary64) (q : ℚ) : Prop :=
  ∃ negative m e, x = finite negative m e ∧ |scaledValue negative m e - q| ≤ halfGap

variable {num den : Nat}

/-- Rounding moves a quotient by half of what its exponent stands for at most. -/
theorem weigh_rounded_error (hNum : num ≠ 0) (hDen : 0 < den) :
    |weigh (rounded num den) - (num : ℚ) / den| ≤ (2 : ℚ) ^ exponentFor num den / 2 := by
  have hDen' : (0 : ℚ) < den := by exact_mod_cast hDen
  rw [weigh_rounded hNum]
  unfold mantissaFor
  generalize exponentFor num den = e
  have hOver : 0 < den * power 2 e := Nat.mul_pos hDen (power_pos (by decide) _)
  obtain ⟨hUpper, hLower⟩ := divRound_bounds (num * power 2 (-e)) hOver
  generalize divRound (num * power 2 (-e)) (den * power 2 e) = m at hUpper hLower ⊢
  have hShift : (0 : ℚ) < power 2 (-e) := by exact_mod_cast power_pos (by decide) _
  have hUpper' : 2 * ((num : ℚ) * power 2 (-e)) ≤ den * power 2 e * (2 * m + 1) := by
    exact_mod_cast hUpper
  have hLower' : (den : ℚ) * power 2 e * (2 * m) ≤ 2 * (num * power 2 (-e)) + den * power 2 e := by
    exact_mod_cast hLower
  rw [cast_power e] at hUpper' hLower'
  -- the factor that makes the exponent whole is on both sides
  have hAbove : (num : ℚ) ≤ (m * (2 : ℚ) ^ e + (2 : ℚ) ^ e / 2) * den := by
    refine le_of_mul_le_mul_right ?_ hShift
    linarith
  have hBelow : (m * (2 : ℚ) ^ e - (2 : ℚ) ^ e / 2) * den ≤ num := by
    refine le_of_mul_le_mul_right ?_ hShift
    linarith
  rw [← div_le_iff₀ hDen'] at hAbove
  rw [← le_div_iff₀ hDen'] at hBelow
  rw [abs_le]
  constructor <;> linarith

theorem exponentFor_le_of_lt (hNum : num ≠ 0) (hDen : 0 < den)
    (hSmall : (num : ℚ) / den < (2 : ℚ) ^ (32 : Int)) : exponentFor num den ≤ -21 := by
  by_contra hLarge
  rw [not_le] at hLarge
  have hLow := (exponentFor_bounds hNum hDen).2 (by rw [minExponent]; omega)
  have hPowers := zpow_le_zpow_right₀ (one_le_two (α := ℚ))
    (by omega : (32 : Int) ≤ exponentFor num den + 52)
  linarith

/-- Rounding a quotient below `2 ^ 32` gives a double near to it. -/
theorem near_ofRatio (hDen : 0 < den) (hSmall : (num : ℚ) / den < (2 : ℚ) ^ (32 : Int))
    (negative : Bool) :
    Near (ofRatio negative num den) (if negative then -((num : ℚ) / den) else num / den) := by
  have hGap : |weigh (rounded num den) - (num : ℚ) / den| ≤ halfGap := by
    rcases eq_or_ne num 0 with rfl | hNum
    · unfold rounded weigh halfGap
      rw [if_pos rfl, Nat.cast_zero, zero_mul, zero_div, sub_zero, abs_zero]
      positivity
    · refine (weigh_rounded_error hNum hDen).trans ?_
      have hPowers :=
        zpow_le_zpow_right₀ (one_le_two (α := ℚ)) (exponentFor_le_of_lt hNum hDen hSmall)
      have hHalf : halfGap = (2 : ℚ) ^ (-21 : Int) / 2 := by
        unfold halfGap
        norm_num
      rw [hHalf]
      exact div_le_div_of_nonneg_right hPowers zero_le_two
  have hFinite : (rounded num den).2 ≤ maxExponent := by
    unfold rounded
    rw [maxExponent]
    split
    · decide
    · rename_i hNum
      have hExponent := exponentFor_le_of_lt hNum hDen hSmall
      split <;> dsimp only <;> omega
  refine ⟨negative, (rounded num den).1, (rounded num den).2, ?_, ?_⟩
  · rw [ofRatio_eq]
    unfold capped
    rw [if_neg (by omega)]
  · unfold weigh at hGap
    cases negative with
    | false => exact hGap
    | true =>
      unfold scaledValue
      rw [if_pos rfl, if_pos rfl, neg_mul, neg_sub_neg, abs_sub_comm]
      exact hGap

/-! ## Clocks and sums -/

/-- The instants whose microseconds fit thirty-two bits of seconds. -/
def fineLimit : Nat := (2 ^ 32 - 1) * Instant.perSecond

/-- An instant in seconds. -/
def secondsOf (micros : Int) : ℚ := (micros : ℚ) / Instant.perSecond

theorem abs_secondsOf_le {micros : Int} (h : micros.natAbs ≤ fineLimit) :
    |secondsOf micros| ≤ 2 ^ 32 - 1 := by
  unfold secondsOf
  rw [abs_div, Nat.abs_cast, div_le_iff₀ (by norm_num [Instant.perSecond]), ← Int.cast_abs,
    ← Int.natCast_natAbs, Int.cast_natCast]
  have hCast : ((micros.natAbs : Nat) : ℚ) ≤ (fineLimit : Nat) := by exact_mod_cast h
  refine hCast.trans_eq ?_
  unfold fineLimit
  norm_num

/-- A clock is read as a double near to its seconds. -/
theorem near_toSeconds {t : Instant} (h : t.micros.natAbs ≤ fineLimit) :
    Near t.toSeconds (secondsOf t.micros) := by
  have hAbs := abs_secondsOf_le h
  have hRatio :
      ((t.micros.natAbs : Nat) : ℚ) / (Instant.perSecond : Nat) = |secondsOf t.micros| := by
    unfold secondsOf
    rw [abs_div, Nat.abs_cast, ← Int.cast_abs, ← Int.natCast_natAbs, Int.cast_natCast]
  have hNear := @near_ofRatio t.micros.natAbs Instant.perSecond (by decide)
    (by rw [hRatio]; exact hAbs.trans_lt (by norm_num)) (decide (t.micros < 0))
  rw [hRatio] at hNear
  have hSigned : (if decide (t.micros < 0) = true then -|secondsOf t.micros|
      else |secondsOf t.micros|) = secondsOf t.micros := by
    have hPer : (0 : ℚ) < (Instant.perSecond : Nat) := by norm_num [Instant.perSecond]
    by_cases hNeg : t.micros < 0
    · rw [if_pos (decide_eq_true hNeg), abs_of_neg, neg_neg]
      exact div_neg_of_neg_of_pos (by exact_mod_cast hNeg) hPer
    · rw [if_neg (by rw [decide_eq_true_eq]; exact hNeg), abs_of_nonneg]
      exact div_nonneg (by exact_mod_cast not_lt.mp hNeg) hPer.le
  rw [hSigned] at hNear
  exact hNear

/-- A scaled number below `2 ^ 32` is rounded to a double near to it. -/
theorem near_ofScaled {n g : Int} (hSmall : |(n : ℚ) * (2 : ℚ) ^ g| < (2 : ℚ) ^ (32 : Int))
    (zeroNegative : Bool) : Near (ofScaled zeroNegative n g) (n * (2 : ℚ) ^ g) := by
  have hPower : (0 : ℚ) < (2 : ℚ) ^ g := by positivity
  have hShift : (0 : ℚ) < power 2 (-g) := by exact_mod_cast power_pos (by decide) _
  have hRatio : ((n.natAbs * power 2 g : Nat) : ℚ) / power 2 (-g) = |(n : ℚ) * (2 : ℚ) ^ g| := by
    rw [Nat.cast_mul, cast_power g, abs_mul, abs_of_pos hPower, ← Int.cast_abs,
      ← Int.natCast_natAbs, Int.cast_natCast]
    field_simp
  have hDen : 0 < power 2 (-g) := power_pos (by decide) (-g)
  have hNear := @near_ofRatio (n.natAbs * power 2 g) _ hDen (by rw [hRatio]; exact hSmall)
    (if n = 0 then zeroNegative else decide (n < 0))
  rw [hRatio] at hNear
  have hSigned : (if (if n = 0 then zeroNegative else decide (n < 0)) = true
      then -|(n : ℚ) * (2 : ℚ) ^ g| else |(n : ℚ) * (2 : ℚ) ^ g|) = n * (2 : ℚ) ^ g := by
    rw [abs_mul, abs_of_pos hPower]
    rcases lt_trichotomy n 0 with hNeg | rfl | hPos
    · rw [if_neg hNeg.ne, if_pos (decide_eq_true hNeg), abs_of_neg (by exact_mod_cast hNeg),
        neg_mul, neg_neg]
    · cases zeroNegative <;> simp
    · rw [if_neg hPos.ne', if_neg (by rw [decide_eq_true_eq]; exact hPos.not_gt),
        abs_of_pos (by exact_mod_cast hPos)]
  rw [hSigned] at hNear
  exact hNear

/-- A double that is a whole number has its value. -/
theorem Is.exists_value {x : Binary64} {n : Int} (h : Is x n) :
    ∃ negative m e, x = finite negative m e ∧ scaledValue negative m e = n := by
  obtain ⟨negative, m, e, rfl, hValue⟩ := h
  refine ⟨negative, m, e, rfl, ?_⟩
  have hShift : (0 : ℚ) < power 2 (-e) := by exact_mod_cast power_pos (by decide) _
  have hCast : (((if negative then -(m : Int) else m : Int) : Int) : ℚ) * power 2 e
      = n * power 2 (-e) := by exact_mod_cast hValue
  rw [cast_power] at hCast
  rw [scaledValue_eq]
  refine mul_right_cancel₀ hShift.ne' (Eq.trans ?_ hCast)
  ring

/-- Adding a whole number to a double rounds once more. -/
theorem exists_near_add {x y : Binary64} {q : ℚ} {n : Int} (hNear : Near x q) (hIs : Is y n)
    (hSmall : |q + n| ≤ 2 ^ 32 - 1) : ∃ a, |a - (q + n)| ≤ halfGap ∧ Near (add x y) a := by
  obtain ⟨s, m, e, rfl, hGap⟩ := hNear
  obtain ⟨t, k, f, rfl, hValue⟩ := hIs.exists_value
  refine ⟨scaledValue s m e + n, ?_, ?_⟩
  · rw [add_sub_add_right_eq_sub]
    exact hGap
  · unfold add align
    dsimp only
    have hSum : (((if s = true then -(m : Int) else m) * power 2 (e - min e f)
        + (if t = true then -(k : Int) else k) * power 2 (f - min e f) : Int) : ℚ)
          * (2 : ℚ) ^ min e f = scaledValue s m e + n := by
      rw [Int.cast_add, add_mul, aligned_value s m (Int.min_le_left e f),
        aligned_value t k (Int.min_le_right e f), hValue]
    rw [← hSum]
    refine near_ofScaled ?_ _
    rw [hSum]
    have hStep : halfGap < 1 := by
      unfold halfGap
      norm_num
    have hSplit := abs_add_le (scaledValue s m e - q) (q + n)
    rw [← add_assoc, sub_add_cancel] at hSplit
    have hPower : (2 : ℚ) ^ (32 : Int) = 2 ^ 32 := by norm_num
    linarith

/-- If a clock is not read as an earlier second than another reading with whole seconds added, it is
not behind, to the microsecond. -/
theorem le_of_le_toSeconds {t t' : Instant} {n : Int} {x : Binary64}
    (ht : t.micros.natAbs ≤ fineLimit)
    (hSum : (t.micros + n * Instant.perSecond).natAbs ≤ fineLimit)
    (ht' : t'.micros.natAbs ≤ fineLimit) (hIs : Is x n)
    (h : le (t.toSeconds.add x) t'.toSeconds = true) :
    t.micros + n * Instant.perSecond ≤ t'.micros := by
  have hSeconds : secondsOf (t.micros + n * Instant.perSecond) = secondsOf t.micros + n := by
    unfold secondsOf
    have hPer : ((Instant.perSecond : Nat) : ℚ) ≠ 0 := by norm_num [Instant.perSecond]
    push_cast
    rw [add_div, mul_div_cancel_right₀ _ hPer]
  obtain ⟨a, hFirst, s, m, e, hAdd, hSecond⟩ :=
    exists_near_add (near_toSeconds ht) hIs (hSeconds ▸ abs_secondsOf_le hSum)
  obtain ⟨s', m', e', hRead, hThird⟩ := near_toSeconds ht'
  rw [hAdd, hRead, le_finite_iff] at h
  rw [abs_le] at hFirst hSecond hThird
  -- three roundings are less than one microsecond
  have hClose : secondsOf (t.micros + n * Instant.perSecond) < secondsOf (t'.micros + 1) := by
    have hMicro : secondsOf (t'.micros + 1) = secondsOf t'.micros + 1 / 1000000 := by
      unfold secondsOf
      norm_num [Instant.perSecond]
      ring
    have hGaps : 3 * halfGap < 1 / 1000000 := by
      unfold halfGap
      norm_num
    rw [hSeconds, hMicro]
    linarith
  unfold secondsOf at hClose
  rw [div_lt_div_iff_of_pos_right (by norm_num [Instant.perSecond])] at hClose
  exact Int.lt_add_one_iff.mp (by exact_mod_cast hClose)

end PageBlocks.Number.Binary64
