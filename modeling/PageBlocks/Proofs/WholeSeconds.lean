import Mathlib.Tactic.Linarith
import Mathlib.Tactic.Ring
import PageBlocks.Time.Instant

/-!
# Whole seconds in double precision

A double holds every whole number of up to fifty-three bits exactly (`Is`). Rounding a quotient that
is such a number changes nothing (`is_ofRatio`), so clocks that show whole seconds are read exactly
(`is_toSeconds`), adding them up is exact as long as the sum is as small (`Is.add`), and comparing
them is comparing the numbers (`Is.le_iff`).
-/

set_option autoImplicit false

namespace PageBlocks.Number

open PageBlocks.Time

/-! ## Powers of two -/

theorem power_add (base : Nat) {j k : Int} (hj : 0 ≤ j) (hk : 0 ≤ k) :
    power base (j + k) = power base j * power base k := by
  have hSum : (j + k).toNat = j.toNat + k.toNat := Int.toNat_add hj hk
  show base ^ (j + k).toNat = base ^ j.toNat * base ^ k.toNat
  rw [hSum, pow_add]

namespace Binary64

/-- A quotient without remainder is not rounded. -/
theorem divRound_mul (q : Nat) {d : Nat} (h : 0 < d) : divRound (q * d) d = q := by
  unfold divRound
  rw [Nat.mul_div_cancel q h, Nat.mul_mod_left]
  dsimp only
  rw [if_pos (by omega)]

/-! ## Doubles that are whole numbers -/

/-- A double is a whole number: the factors that its exponent stands for are on the side where they
are whole. -/
def Is (x : Binary64) (n : Int) : Prop :=
  ∃ (negative : Bool) (m : Nat) (e : Int), x = finite negative m e
    ∧ (if negative then -(m : Int) else m) * power 2 e = n * power 2 (-e)

/-- The largest number up to which doubles hold all whole numbers. -/
def wholeLimit : Nat := 2 ^ 53

variable {num den n : Nat}

/-- A quotient of at most fifty-three bits has a positive exponent only if it is the limit. -/
theorem exponentFor_le (hDen : 0 < den) (hNum : num = n * den) (hPos : 0 < n)
    (hLimit : n ≤ wholeLimit) :
    exponentFor num den ≤ 0 ∨ exponentFor num den = 1 ∧ n = wholeLimit := by
  have hNumPos : num ≠ 0 := by
    rw [hNum]
    exact (Nat.mul_pos hPos hDen).ne'
  have hLog : num.log2 < den.log2 + 54 := by
    rw [Nat.log2_lt hNumPos]
    calc num = n * den := hNum
      _ ≤ 2 ^ 53 * den := Nat.mul_le_mul_right den hLimit
      _ < 2 ^ 53 * 2 ^ (den.log2 + 1) := by
        exact Nat.mul_lt_mul_of_pos_left Nat.lt_log2_self (by positivity)
      _ = 2 ^ (den.log2 + 54) := by rw [← pow_add]; congr 1; omega
  unfold exponentFor
  dsimp only
  generalize hk : (num.log2 : Int) - den.log2 = k
  have hBound : k ≤ 53 := by omega
  rw [minExponent]
  by_cases hTop : k = 53
  · subst hTop
    have hOne : power 2 (-53) = 1 := power_of_nonpos 2 (by omega)
    have hBig : power 2 53 = wholeLimit := rfl
    rw [hOne, hBig, Nat.mul_one, hNum]
    by_cases hBelow : n * den < den * wholeLimit
    · rw [decide_eq_true hBelow, if_pos rfl]
      exact .inl (by omega)
    · rw [decide_eq_false hBelow, if_neg Bool.false_ne_true]
      refine .inr ⟨by omega, Nat.le_antisymm hLimit ?_⟩
      rw [Nat.not_lt, Nat.mul_comm n den] at hBelow
      exact Nat.le_of_mul_le_mul_left hBelow hDen
  · refine .inl ?_
    split <;> omega

/-- Rounding leaves a whole quotient of up to fifty-three bits as it is. -/
theorem is_ofRatio (hDen : 0 < den) (hNum : num = n * den) (hLimit : n ≤ wholeLimit)
    (negative : Bool) :
    Is (ofRatio negative num den) (if negative then -(n : Int) else n) := by
  -- it is enough to look at the mantissa without its sign
  have hIs : ∀ (m : Nat) (e : Int), m * power 2 e = n * power 2 (-e) →
      Is (finite negative m e) (if negative then -(n : Int) else n) := by
    intro m e hSame
    refine ⟨negative, m, e, rfl, ?_⟩
    have hCast : (m : Int) * power 2 e = n * power 2 (-e) := by exact_mod_cast hSame
    cases negative with
    | false => exact hCast
    | true =>
      show -(m : Int) * power 2 e = -(n : Int) * power 2 (-e)
      rw [Int.neg_mul, Int.neg_mul, hCast]
  unfold ofRatio
  rcases Nat.eq_zero_or_pos n with rfl | hPos
  · rw [if_pos (by rw [hNum, Nat.zero_mul])]
    exact hIs 0 minExponent (by rw [Nat.zero_mul, Nat.zero_mul])
  · rw [if_neg (by rw [hNum]; exact (Nat.mul_pos hPos hDen).ne')]
    dsimp only
    have hExponent := exponentFor_le hDen hNum hPos hLimit
    generalize exponentFor num den = e at hExponent
    rcases hExponent with hLow | ⟨rfl, rfl⟩
    · have hMantissa : divRound (num * power 2 (-e)) (den * power 2 e) = n * power 2 (-e) := by
        rw [power_of_nonpos 2 hLow, Nat.mul_one, hNum, Nat.mul_right_comm, divRound_mul _ hDen]
      rw [hMantissa]
      by_cases hFull : n * power 2 (-e) = power 2 53
      · rw [if_pos hFull]
        dsimp only
        rw [if_neg (by rw [maxExponent]; omega)]
        refine hIs _ _ ?_
        -- the mantissa was halved and the exponent raised
        rcases Int.lt_or_eq_of_le hLow with hNeg | rfl
        · have hHalf : power 2 (-e) = power 2 (-(e + 1)) * power 2 1 := by
            rw [← power_add 2 (by omega) (by omega)]
            congr 1
            omega
          rw [power_of_nonpos 2 (by omega : e + 1 ≤ 0)]
          rw [hHalf, ← Nat.mul_assoc] at hFull
          have hTwo : power 2 53 = power 2 52 * power 2 1 := by decide
          rw [hTwo] at hFull
          rw [Nat.mul_one]
          exact (Nat.eq_of_mul_eq_mul_right (by decide) hFull).symm
        · have hOne : power 2 (-(0 + 1)) = 1 := power_of_nonpos 2 (by omega)
          have hSelf : n = power 2 53 := by
            rw [← hFull]
            exact (Nat.mul_one n).symm
          rw [hOne, Nat.mul_one, hSelf]
          decide
      · rw [if_neg hFull]
        dsimp only
        rw [if_neg (by rw [maxExponent]; omega)]
        refine hIs _ _ ?_
        rw [power_of_nonpos 2 hLow, Nat.mul_one]
    · -- the limit itself has the mantissa of half of it
      have hMantissa : divRound (num * power 2 (-1)) (den * power 2 1) = power 2 52 := by
        have hOne : power 2 (-1) = 1 := power_of_nonpos 2 (by omega)
        have hSplit : num = power 2 52 * (den * power 2 1) := by
          have hLimitSplit : wholeLimit = power 2 52 * power 2 1 := by decide
          rw [hNum, hLimitSplit, Nat.mul_assoc, Nat.mul_comm (power 2 1) den]
        rw [hOne, Nat.mul_one, hSplit]
        exact divRound_mul _ (Nat.mul_pos hDen (by decide))
      rw [hMantissa]
      have hNotFull : power 2 52 ≠ power 2 53 := by decide
      rw [if_neg hNotFull]
      dsimp only
      rw [if_neg (by rw [maxExponent]; omega)]
      exact hIs _ _ (by decide)

/-- A number is its absolute value with its sign; zero may have either. -/
theorem signed_natAbs {n : Int} {negative : Bool} (hNeg : n < 0 → negative = true)
    (hPos : 0 < n → negative = false) : (if negative then -(n.natAbs : Int) else n.natAbs) = n := by
  cases negative with
  | false =>
    have hNot : ¬ n < 0 := fun h => Bool.noConfusion (hNeg h)
    rw [if_neg Bool.false_ne_true]
    omega
  | true =>
    have hNot : ¬ 0 < n := fun h => Bool.noConfusion (hPos h)
    rw [if_pos rfl]
    omega

theorem is_ofInt {n : Int} (h : n.natAbs ≤ wholeLimit) : Is (ofInt n) n := by
  have hIs := is_ofRatio Nat.one_pos (Nat.mul_one n.natAbs).symm h (decide (n < 0))
  rw [signed_natAbs decide_eq_true fun hPos => decide_eq_false hPos.not_gt] at hIs
  exact hIs

/-- A clock that shows a whole number of seconds is read exactly. -/
theorem is_toSeconds {s : Int} (h : s.natAbs ≤ wholeLimit) :
    Is (Instant.ofSeconds s).toSeconds s := by
  have hNum : (Instant.ofSeconds s).micros.natAbs = s.natAbs * Instant.perSecond :=
    Int.natAbs_mul s Instant.perSecond
  have hIs := is_ofRatio (by decide) hNum h (decide ((Instant.ofSeconds s).micros < 0))
  have hMicros : (Instant.ofSeconds s).micros = s * 1000000 := rfl
  rw [signed_natAbs (fun hNeg => decide_eq_true ?_) fun hPos => decide_eq_false ?_] at hIs
  · exact hIs
  · omega
  · omega

/-! ## Comparing and adding -/

/-- The number that a mantissa and an exponent stand for is the same over a smaller exponent. -/
theorem aligned {x a e g : Int} (hLe : g ≤ e) (h : x * power 2 e = a * power 2 (-e)) :
    x * power 2 (e - g) * power 2 g = a * power 2 (-g) := by
  rcases Int.le_total e 0 with hNeg | hPos
  · rw [power_of_nonpos 2 hNeg, Nat.cast_one, Int.mul_one] at h
    have hSplit : power 2 (-g) = power 2 (-e) * power 2 (e - g) := by
      rw [← power_add 2 (by omega) (by omega)]
      congr 1
      omega
    rw [power_of_nonpos 2 (by omega : g ≤ 0), hSplit, h]
    push_cast
    ring
  · rw [power_of_nonpos 2 (by omega : -e ≤ 0), Nat.cast_one, Int.mul_one] at h
    rcases Int.le_total g 0 with hDown | hUp
    · have hSplit : power 2 (e - g) = power 2 e * power 2 (-g) := by
        rw [← power_add 2 hPos (by omega)]
        congr 1
      rw [power_of_nonpos 2 hDown, hSplit, ← h]
      push_cast
      ring
    · have hSplit : power 2 e = power 2 (e - g) * power 2 g := by
        rw [← power_add 2 (by omega) hUp]
        congr 1
        omega
      rw [power_of_nonpos 2 (by omega : -g ≤ 0), ← h, hSplit]
      push_cast
      ring

variable {x y : Binary64} {a b : Int}

/-- Comparing doubles that are whole numbers is comparing the numbers. -/
theorem Is.le_iff (hx : Is x a) (hy : Is y b) : le x y = true ↔ a ≤ b := by
  obtain ⟨s, m, e, rfl, hValue⟩ := hx
  obtain ⟨t, k, f, rfl, hOther⟩ := hy
  unfold le lt same align
  dsimp only
  rw [Bool.or_eq_true, decide_eq_true_eq, decide_eq_true_eq, ← Int.le_iff_lt_or_eq]
  have hLeft := aligned (Int.min_le_left e f) hValue
  have hRight := aligned (Int.min_le_right e f) hOther
  have hFactor : (0 : Int) < power 2 (min e f) := by exact_mod_cast power_pos (by decide) _
  have hOver : (0 : Int) < power 2 (-min e f) := by exact_mod_cast power_pos (by decide) _
  rw [← Int.mul_le_mul_right hFactor, hLeft, hRight, Int.mul_le_mul_right hOver]

/-- A sum of whole numbers that is not larger than the limit is exact. -/
theorem Is.add (hx : Is x a) (hy : Is y b) (hLimit : (a + b).natAbs ≤ wholeLimit) :
    Is (Binary64.add x y) (a + b) := by
  obtain ⟨s, m, e, rfl, hValue⟩ := hx
  obtain ⟨t, k, f, rfl, hOther⟩ := hy
  unfold Binary64.add align
  dsimp only
  have hSum := congrArg₂ (fun u v : Int => u + v) (aligned (Int.min_le_left e f) hValue)
    (aligned (Int.min_le_right e f) hOther)
  rw [← Int.add_mul, ← Int.add_mul] at hSum
  generalize (if s = true then -(m : Int) else m) * power 2 (e - min e f)
    + (if t = true then -(k : Int) else k) * power 2 (f - min e f) = total at hSum ⊢
  generalize min e f = g at hSum ⊢
  have hFactor : 0 < power 2 g := power_pos (by decide) g
  have hOver : 0 < power 2 (-g) := power_pos (by decide) (-g)
  have hNum : total.natAbs * power 2 g = (a + b).natAbs * power 2 (-g) := by
    have hAbs := congrArg Int.natAbs hSum
    rw [Int.natAbs_mul, Int.natAbs_mul, Int.natAbs_natCast, Int.natAbs_natCast] at hAbs
    exact hAbs
  unfold ofScaled
  have hIs := is_ofRatio hOver hNum hLimit (if total = 0 then s && t else decide (total < 0))
  -- the sum has the sign of the number over the common exponent
  have hFactorInt : (0 : Int) < power 2 g := by exact_mod_cast hFactor
  have hOverInt : (0 : Int) < power 2 (-g) := by exact_mod_cast hOver
  rw [signed_natAbs (fun hNeg => ?_) fun hPos => ?_] at hIs
  · exact hIs
  · have hTotal : total < 0 := by nlinarith
    rw [if_neg hTotal.ne]
    exact decide_eq_true hTotal
  · have hTotal : 0 < total := by nlinarith
    rw [if_neg hTotal.ne']
    exact decide_eq_false hTotal.not_gt

end Binary64

end PageBlocks.Number
