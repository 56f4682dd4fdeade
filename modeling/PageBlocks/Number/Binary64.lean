/-!
# Double precision

Binary floating point numbers of fifty-three significant bits, as exact values: a sign, a mantissa
and a power of two. Every operation computes the exact result and rounds it once, to the nearest
representable value and on a tie to the even mantissa.
-/

set_option autoImplicit false

namespace PageBlocks.Number

/-! ## Powers with an integer exponent

A factor `b ^ k` with a negative exponent is a division. `power` gives the natural number to
multiply with, so that `n · b ^ k` is the quotient of `n * power b k` and `power b (-k)`, of which
at least one factor is one. -/

/-- The power of a base to the positive part of an exponent. -/
def power (base : Nat) (k : Int) : Nat := Nat.pow base k.toNat

theorem power_of_nonpos (base : Nat) {k : Int} (h : k ≤ 0) : power base k = 1 := by
  rw [power, Int.toNat_of_nonpos h]
  rfl

theorem power_pos {base : Nat} (h : 0 < base) (k : Int) : 0 < power base k := Nat.pow_pos h

/-! ## Double precision numbers -/

/-- A double precision number. In the normal form of finite values the mantissa is below `2 ^ 53`,
the exponent is at least `-1074`, and one of the two cannot be lowered. -/
inductive Binary64 where
  | nan
  | infinity (negative : Bool)
  | finite (negative : Bool) (mantissa : Nat) (exponent : Int)
  deriving DecidableEq

namespace Binary64

/-- The smallest exponent of a finite value. -/
def minExponent : Int := -1074

/-- The largest exponent of a finite value. -/
def maxExponent : Int := 971

/-- The quotient of two naturals to the nearest integer, a tie to the even one. -/
def divRound (n d : Nat) : Nat :=
  let q := n / d
  let r := n % d
  if 2 * r < d then q else if 2 * r > d then q + 1 else q + q % 2

/-- The exponent that gives `num / den` fifty-three significant bits, or the smallest one. -/
def exponentFor (num den : Nat) : Int :=
  let k : Int := (num.log2 : Int) - den.log2
  let below := decide (num * power 2 (-k) < den * power 2 k)
  max (k - (if below then 53 else 52)) minExponent

/-- The double nearest to `num / den`, with the given sign. -/
def ofRatio (negative : Bool) (num den : Nat) : Binary64 :=
  if num = 0 then finite negative 0 minExponent
  else
    let e := exponentFor num den
    let m := divRound (num * power 2 (-e)) (den * power 2 e)
    -- rounding up can reach the next power of two
    let (m, e) := if m = power 2 53 then (power 2 52, e + 1) else (m, e)
    if e > maxExponent then infinity negative else finite negative m e

/-- The double nearest to `n · 2 ^ e`. A zero result takes the given sign. -/
def ofScaled (zeroNegative : Bool) (n e : Int) : Binary64 :=
  let negative := if n = 0 then zeroNegative else decide (n < 0)
  ofRatio negative (n.natAbs * power 2 e) (power 2 (-e))

/-- The double nearest to an integer. -/
def ofInt (n : Int) : Binary64 := ofRatio (decide (n < 0)) n.natAbs 1

/-- A finite value as a signed mantissa and an exponent. -/
def scaled? : Binary64 → Option (Int × Int)
  | finite negative m e => some (if negative then -(m : Int) else m, e)
  | _ => none

/-- Two scaled numbers over their smaller exponent. -/
def align (a b : Int × Int) : Int × Int × Int :=
  let e := min a.2 b.2
  (a.1 * power 2 (a.2 - e), b.1 * power 2 (b.2 - e), e)

/-- The sign of a value; a not-a-number counts as positive. -/
def isNegative : Binary64 → Bool
  | nan => false
  | infinity negative => negative
  | finite negative _ _ => negative

/-- The value with the opposite sign. -/
def neg : Binary64 → Binary64
  | nan => nan
  | infinity negative => infinity (!negative)
  | finite negative m e => finite (!negative) m e

/-- Addition, rounded once. A sum of zero is positive unless both operands are negative zeros. -/
def add : Binary64 → Binary64 → Binary64
  | nan, _ | _, nan => nan
  | infinity a, infinity b => if a = b then infinity a else nan
  | infinity a, _ | _, infinity a => infinity a
  | finite s m e, finite t n f =>
    let (x, y, g) := align (if s then -(m : Int) else m, e) (if t then -(n : Int) else n, f)
    ofScaled (s && t) (x + y) g

/-- Subtraction, rounded once. -/
def sub (a b : Binary64) : Binary64 := add a (neg b)

/-- Whether the first value is smaller. A not-a-number is neither smaller nor larger. -/
def lt : Binary64 → Binary64 → Bool
  | nan, _ | _, nan => false
  | infinity a, infinity b => a && !b
  | infinity a, _ => a
  | _, infinity b => !b
  | finite s m e, finite t n f =>
    let (x, y, _) := align (if s then -(m : Int) else m, e) (if t then -(n : Int) else n, f)
    decide (x < y)

/-- Whether two values are the same number. A not-a-number is no number, and the two zeros are
the same one. -/
def same : Binary64 → Binary64 → Bool
  | nan, _ | _, nan => false
  | infinity a, infinity b => a == b
  | infinity _, _ | _, infinity _ => false
  | finite s m e, finite t n f =>
    let (x, y, _) := align (if s then -(m : Int) else m, e) (if t then -(n : Int) else n, f)
    decide (x = y)

/-- Whether the first value is smaller or the same. -/
def le (a b : Binary64) : Bool := lt a b || same a b

/-- An integer as an exact operand of a comparison. Rounding it would lose digits, so it is kept
with exponent zero, which is outside of the normal form when it has more than fifty-three bits. -/
def exactInt (n : Int) : Binary64 := finite (decide (n < 0)) n.natAbs 0

/-- The integer that a value is, if it is one. -/
def toInt? : Binary64 → Option Int
  | finite negative m e =>
    if m % power 2 (-e) = 0 then
      let n := m / power 2 (-e) * power 2 e
      some (if negative then -(n : Int) else n)
    else none
  | _ => none

/-- A finite value as an integer number of millionths. The whole part counts exactly. The
fraction is multiplied in double precision, and what is left below one millionth is rounded to the
nearest, a tie to an even total. -/
def toMicros? : Binary64 → Option Int
  | finite negative m e =>
    let den := power 2 (-e)
    let whole := m / den * power 2 e * 1000000
    match ofRatio false (m % den * 1000000) den with
    | finite _ p f =>
      let d := power 2 (-f)
      let parts := p * power 2 f
      let base := whole + parts / d
      let r := parts % d
      let micros := if 2 * r < d then base else if 2 * r > d then base + 1 else base + base % 2
      some (if negative then -(micros : Int) else micros)
    | _ => none
  | _ => none

end Binary64

end PageBlocks.Number
