import Mathlib.Algebra.Group.Nat.Defs
import Mathlib.Logic.Function.Iterate
import PageBlocks.Digest.Crc32

/-!
# Bursts of errors

A division step can be undone (`stepBit_injective`), so registers that differ stay different
whatever bytes they take in. And up to four bytes go into the register as one word that is as wide
as it (`register_eq_iterate`): a register takes in different words of this kind in different ways.
So no difference in a window of at most four bytes is lost on the checksum, wherever the window
stands (`sum_ne`).
-/

set_option autoImplicit false

namespace PageBlocks.Digest.Crc32

open PageBlocks.Text

/-! ## Single bits -/

theorem toNat_and_one (x : UInt32) : (x &&& 1).toNat = x.toNat % 2 := by
  rw [UInt32.toNat_and]
  exact Nat.and_one_is_mod _

/-- A register shifted up has its lowest bit clear. -/
theorem toNat_shiftLeft_mod_two (y : UInt32) : (y <<< 1).toNat % 2 = 0 := by
  simp only [UInt32.toNat_shiftLeft, Nat.shiftLeft_eq, UInt32.reduceToNat, Nat.reduceMod,
    Nat.reducePow]
  omega

/-- Shifting up and down again gives back what fits below the highest bit. -/
theorem shiftLeft_shiftRight {y : UInt32} (h : y.toNat < 2 ^ 31) : (y <<< 1) >>> 1 = y := by
  apply UInt32.toNat_inj.mp
  simp only [UInt32.toNat_shiftLeft, UInt32.toNat_shiftRight, Nat.shiftLeft_eq,
    Nat.shiftRight_eq_div_pow, UInt32.reduceToNat, Nat.reduceMod, Nat.reducePow]
  omega

/-- A division step takes what stands above the lowest bit down by one place. -/
theorem stepBit_xor_shiftLeft (x : UInt32) {y : UInt32} (h : y.toNat < 2 ^ 31) :
    stepBit (x ^^^ (y <<< 1)) = stepBit x ^^^ y := by
  have hLow : (x ^^^ (y <<< 1)) &&& 1 = x &&& 1 := by
    apply UInt32.toNat_inj.mp
    have hSum := Nat.xor_mod_two_pow (a := x.toNat) (b := (y <<< 1).toNat) (n := 1)
    rw [toNat_and_one, toNat_and_one, UInt32.toNat_xor]
    rw [Nat.pow_one, toNat_shiftLeft_mod_two, Nat.xor_zero] at hSum
    exact hSum
  have hShift : (x ^^^ (y <<< 1)) >>> 1 = (x >>> 1) ^^^ y := by
    rw [UInt32.shiftRight_xor, shiftLeft_shiftRight h]
  unfold stepBit
  rw [hLow, hShift]
  split
  · rw [UInt32.xor_assoc, UInt32.xor_comm y, UInt32.xor_assoc]
  · rfl

theorem toNat_shiftRight_one (x : UInt32) : (x >>> 1).toNat = x.toNat / 2 := by
  rw [UInt32.toNat_shiftRight, Nat.shiftRight_eq_div_pow]
  rfl

/-- What is shifted down has the highest bit clear, unlike the polynomial. -/
theorem shiftRight_xor_polynomial_ne (x y : UInt32) :
    (x >>> 1) ^^^ (0xEDB88320 : UInt32) ≠ y >>> 1 := by
  intro hSame
  have hPolynomial : (0xEDB88320 : UInt32) = (x >>> 1) ^^^ (y >>> 1) := by
    rw [← hSame, ← UInt32.xor_assoc, UInt32.xor_self, UInt32.zero_xor]
  have hSmall : ((x >>> 1) ^^^ (y >>> 1)).toNat < 2 ^ 31 := by
    have hx := x.toNat_lt
    have hy := y.toNat_lt
    rw [UInt32.toNat_xor, toNat_shiftRight_one, toNat_shiftRight_one]
    exact Nat.xor_lt_two_pow (by omega) (by omega)
  rw [← hPolynomial] at hSmall
  exact absurd hSmall (by decide)

/-- A register is its lowest bit and what is above it. -/
theorem eq_of_shiftRight_eq {x y : UInt32} (hShift : x >>> 1 = y >>> 1)
    (hLow : x &&& 1 = y &&& 1) : x = y := by
  apply UInt32.toNat_inj.mp
  have hAbove := congrArg UInt32.toNat hShift
  have hBelow := congrArg UInt32.toNat hLow
  rw [toNat_shiftRight_one, toNat_shiftRight_one] at hAbove
  rw [toNat_and_one, toNat_and_one] at hBelow
  omega

theorem and_one_ne_one_iff (x : UInt32) : ¬ x &&& 1 = 1 ↔ x &&& 1 = 0 := by
  rw [← UInt32.toNat_inj, ← UInt32.toNat_inj, toNat_and_one]
  have hOne : (1 : UInt32).toNat = 1 := rfl
  have hZero : (0 : UInt32).toNat = 0 := rfl
  omega

/-- A division step can be undone: the highest bit of its result tells the lowest bit that was
shifted out. -/
theorem stepBit_injective : Function.Injective stepBit := by
  intro x y h
  unfold stepBit at h
  split at h
  · rename_i hx
    split at h
    · rename_i hy
      exact eq_of_shiftRight_eq (UInt32.xor_left_inj _ |>.mp h) (hx.trans hy.symm)
    · exact absurd h (shiftRight_xor_polynomial_ne x y)
  · rename_i hx
    split at h
    · exact absurd h.symm (shiftRight_xor_polynomial_ne y x)
    · rename_i hy
      rw [and_one_ne_one_iff] at hx hy
      exact eq_of_shiftRight_eq h (hx.trans hy.symm)

/-! ## Bytes -/

theorem stepByte_eq (register : UInt32) (b : UInt8) :
    stepByte register b = stepBit^[8] (register ^^^ b.toUInt32) := rfl

/-- Division steps take what stands above the lowest bits down. -/
theorem iterate_stepBit_xor {n : Nat} (x : UInt32) {y z : UInt32}
    (h : z.toNat = y.toNat * 2 ^ n) : stepBit^[n] (x ^^^ z) = stepBit^[n] x ^^^ y := by
  induction n generalizing x z with
  | zero =>
    rw [Nat.pow_zero, Nat.mul_one, UInt32.toNat_inj] at h
    rw [h]
    rfl
  | succ n ih =>
    have hz := z.toNat_lt
    rw [Nat.pow_succ, ← Nat.mul_assoc] at h
    -- `z` is a register shifted up by one place
    have hHalf : (UInt32.ofNat (y.toNat * 2 ^ n)).toNat = y.toNat * 2 ^ n :=
      UInt32.toNat_ofNat_of_lt' (show _ < 2 ^ 32 by omega)
    have hShift : z = UInt32.ofNat (y.toNat * 2 ^ n) <<< 1 := by
      apply UInt32.toNat_inj.mp
      rw [h, UInt32.toNat_shiftLeft, hHalf, Nat.shiftLeft_eq]
      simp only [UInt32.reduceToNat, Nat.reduceMod, Nat.reducePow]
      omega
    rw [Function.iterate_succ_apply, Function.iterate_succ_apply, hShift,
      stepBit_xor_shiftLeft x (by omega), ih _ hHalf]

/-- At most four bytes as one register, the first byte lowest. -/
def word : Bytes → UInt32
  | [] => 0
  | b :: bytes => b.toUInt32 ^^^ (word bytes <<< 8)

theorem toNat_shiftLeft_eight {x : UInt32} (h : x.toNat < 2 ^ 24) :
    (x <<< 8).toNat = x.toNat * 2 ^ 8 := by
  simp only [UInt32.toNat_shiftLeft, Nat.shiftLeft_eq, UInt32.reduceToNat, Nat.reduceMod,
    Nat.reducePow]
  omega

theorem toNat_word_lt {bytes : Bytes} (h : bytes.length ≤ 4) :
    (word bytes).toNat < 2 ^ (8 * bytes.length) := by
  induction bytes with
  | nil => decide
  | cons b bytes ih =>
    rw [List.length_cons] at h ⊢
    have hRest := ih (by omega)
    have hSmall : (word bytes).toNat < 2 ^ 24 :=
      Nat.lt_of_lt_of_le hRest (Nat.pow_le_pow_right (by decide) (by omega))
    have hb := b.toNat_lt
    rw [word, UInt32.toNat_xor, UInt8.toNat_toUInt32, toNat_shiftLeft_eight hSmall]
    refine Nat.xor_lt_two_pow ?_ ?_
    · exact Nat.lt_of_lt_of_le hb (Nat.pow_le_pow_right (by decide) (by omega))
    · rw [Nat.mul_add, Nat.pow_add]
      exact Nat.mul_lt_mul_of_pos_right hRest (by decide)

theorem toNat_word_lt_of_three {bytes : Bytes} (h : bytes.length ≤ 3) :
    (word bytes).toNat < 2 ^ 24 :=
  Nat.lt_of_lt_of_le (toNat_word_lt (Nat.le_succ_of_le h))
    (Nat.pow_le_pow_right (by decide) (by omega))

/-- What a window of four bytes holds can be told from its word. -/
theorem eq_of_word_eq {bytes other : Bytes} (hLength : bytes.length = other.length)
    (hFour : bytes.length ≤ 4) (h : word bytes = word other) : bytes = other := by
  induction bytes generalizing other with
  | nil => exact (List.length_eq_zero_iff.mp hLength.symm).symm
  | cons b bytes ih =>
    cases other with
    | nil => cases hLength
    | cons c other =>
      rw [List.length_cons, List.length_cons, Nat.add_right_cancel_iff] at hLength
      rw [List.length_cons] at hFour
      have hBytes : (word bytes).toNat < 2 ^ 24 := toNat_word_lt_of_three (by omega)
      have hOther : (word other).toNat < 2 ^ 24 := toNat_word_lt_of_three (by omega)
      have hSum := congrArg UInt32.toNat h
      rw [word, word, UInt32.toNat_xor, UInt32.toNat_xor, UInt8.toNat_toUInt32,
        UInt8.toNat_toUInt32, toNat_shiftLeft_eight hBytes, toNat_shiftLeft_eight hOther] at hSum
      have hb := b.toNat_lt
      have hc := c.toNat_lt
      have hFirst : b = c := by
        have hLow := congrArg (· % 2 ^ 8) hSum
        simp only [Nat.xor_mod_two_pow, Nat.mul_mod_left, Nat.xor_zero, Nat.mod_eq_of_lt hb,
          Nat.mod_eq_of_lt hc] at hLow
        exact UInt8.toNat_inj.mp hLow
      have hRest : word bytes = word other := by
        have hHigh := congrArg (· / 2 ^ 8) hSum
        simp only [Nat.xor_div_two_pow, Nat.mul_div_cancel _ (Nat.two_pow_pos 8), Nat.zero_xor,
          Nat.div_eq_of_lt hb, Nat.div_eq_of_lt hc] at hHigh
        exact UInt32.toNat_inj.mp hHigh
      rw [hFirst, ih hLength (by omega) hRest]

/-- A register takes up to four bytes in as it would take in the bits of their word. -/
theorem register_eq_iterate (start : UInt32) {bytes : Bytes} (h : bytes.length ≤ 4) :
    register start bytes = stepBit^[8 * bytes.length] (start ^^^ word bytes) := by
  induction bytes generalizing start with
  | nil => exact (UInt32.xor_zero).symm
  | cons b bytes ih =>
    rw [List.length_cons] at h
    have hRest : (word bytes).toNat < 2 ^ 24 := toNat_word_lt_of_three (by omega)
    have hDown : stepByte start b ^^^ word bytes
        = stepBit^[8] (start ^^^ word (b :: bytes)) := by
      rw [word, ← UInt32.xor_assoc, iterate_stepBit_xor _ (toNat_shiftLeft_eight hRest)]
      rfl
    calc
      register start (b :: bytes) = register (stepByte start b) bytes := rfl
      _ = stepBit^[8 * bytes.length] (stepByte start b ^^^ word bytes) := ih _ (by omega)
      _ = stepBit^[8 * bytes.length + 8] (start ^^^ word (b :: bytes)) := by
        rw [hDown, Function.iterate_add_apply]

/-! ## Bursts -/

theorem register_append (start : UInt32) (bytes more : Bytes) :
    register start (bytes ++ more) = register (register start bytes) more :=
  List.foldl_append

/-- Different registers stay different, whatever bytes they take in. -/
theorem register_injective (bytes : Bytes) : Function.Injective (register · bytes) := by
  induction bytes with
  | nil => exact fun _ _ h => h
  | cons b bytes ih =>
    intro x y h
    have hByte : stepByte x b = stepByte y b := ih h
    rw [stepByte_eq, stepByte_eq] at hByte
    exact (UInt32.xor_left_inj _).mp ((stepBit_injective.iterate 8) hByte)

/-- A window of at most four bytes leaves its mark on the register. -/
theorem register_ne {bytes other : Bytes} (start : UInt32) (hLength : bytes.length = other.length)
    (hFour : bytes.length ≤ 4) (hNe : bytes ≠ other) :
    register start bytes ≠ register start other := by
  intro h
  rw [register_eq_iterate start hFour, register_eq_iterate start (hLength ▸ hFour), ← hLength] at h
  have hWords := (stepBit_injective.iterate _) h
  exact hNe (eq_of_word_eq hLength hFour ((UInt32.xor_right_inj _).mp hWords))

/-- Byte strings that differ in a window of at most four bytes alone have different checksums. -/
theorem sum_ne {bytes other : Bytes} (before behind : Bytes) (hLength : bytes.length = other.length)
    (hFour : bytes.length ≤ 4) (hNe : bytes ≠ other) :
    sum (before ++ bytes ++ behind) ≠ sum (before ++ other ++ behind) := by
  intro h
  have hRegisters := (UInt32.xor_left_inj _).mp h
  rw [register_append, register_append, register_append, register_append] at hRegisters
  exact register_ne _ hLength hFour hNe (register_injective behind hRegisters)

end PageBlocks.Digest.Crc32
