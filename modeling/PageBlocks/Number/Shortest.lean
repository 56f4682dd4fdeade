import PageBlocks.Number.Decimal
import PageBlocks.Number.Binary64

/-!
# The fewest digits that read back

A double is written with the fewest significant decimal digits from which a correctly rounding
reader gets it again, and among those with the digits nearest to its value. The search tests, for
each count of digits, the two neighbours of the value on the grid of decimals with that many
digits, in exact arithmetic: if any point of a grid reads back, one of these two does.

How the digits are laid out is a separate decision, one `Layout` per written format.
-/

set_option autoImplicit false

namespace PageBlocks.Number

/-- Significant digits and the place of the decimal point: `0.d₁d₂… · 10 ^ point`. -/
structure Digits where
  digits : List Char
  point : Int

/-- The layout decisions of a text format for doubles: the texts of the values that are no finite
numbers, and the range of decimal points for which digits are written without an exponent. -/
structure Layout where
  nan : String
  infinity : String
  positionalAbove : Int := -4
  positionalUpTo : Int := 16

namespace Shortest

/-- The values that round to `m · 2 ^ e`, as bounds over a common denominator: lower bound, upper
bound and denominator, with the value itself as the fourth number. The gap below a power of two is
half the gap above it. -/
def interval (m : Nat) (e : Int) : Nat × Nat × Nat × Nat :=
  -- in quarters of the gap above the value
  let low := if m = power 2 52 ∧ e > Binary64.minExponent then 4 * m - 1 else 4 * m - 2
  let e := e - 2
  (low * power 2 e, (4 * m + 2) * power 2 e, power 2 (-e), 4 * m * power 2 e)

/-- Whether `c · 10 ^ k` lies in an interval, whose ends belong to it if `closed`. -/
def inside (closed : Bool) (low high den : Nat) (c : Nat) (k : Int) : Bool :=
  let num := c * power 10 k * den
  let unit := power 10 (-k)
  if closed then low * unit ≤ num && num ≤ high * unit
  else low * unit < num && num < high * unit

/-- The least `k` with `num / den < 10 ^ k`, found upwards from a lower estimate. -/
def pointFrom (num den : Nat) : Nat → Int → Int
  | 0, k => k
  | fuel + 1, k =>
    if num * power 10 (-k) < den * power 10 k then k else pointFrom num den fuel (k + 1)

/-- The least `k` with `num / den < 10 ^ k`. A binary logarithm bounds it from below: one decimal
digit is worth more than three bits and fewer than four. -/
def point (num den : Nat) : Int :=
  let bits : Int := (num.log2 : Int) - den.log2
  let start := if bits ≥ 0 then bits * 30 / 100 - 1 else bits * 31 / 100 - 2
  pointFrom num den 400 start

/-- The best decimal of `count` digits that lies in the interval, if there is one. -/
def candidate? (closed : Bool) (low high den value : Nat) (k : Int) (count : Nat) :
    Option (Nat × Int) :=
  let step := k - count
  let n := value * power 10 (-step)
  let d := den * power 10 step
  let c := n / d
  match inside closed low high den c step, inside closed low high den (c + 1) step with
  | true, true =>
    -- both neighbours read back: the nearer one is better
    let r := n % d
    some (if 2 * r < d then c else if 2 * r > d then c + 1 else c + c % 2, step)
  | true, false => some (c, step)
  | false, true => some (c + 1, step)
  | false, false => none

/-- The digits of a positive finite value. -/
def digitsOf (m : Nat) (e : Int) : Digits :=
  let (low, high, den, value) := interval m e
  let k := point value den
  let found := (List.range 17).findSome? fun i =>
    candidate? (m % 2 = 0) low high den value k (i + 1)
  match found with
  | some (c, step) =>
    let ds := Decimal.digits c
    ⟨(ds.reverse.dropWhile (· = '0')).reverse, step + ds.length⟩
  | none => ⟨['0'], 1⟩

/-- Digits with the point in its place, and at least one digit on each side of it. -/
def positional (d : Digits) : List Char :=
  let n : Int := d.digits.length
  if d.point ≤ 0 then '0' :: '.' :: List.replicate (-d.point).toNat '0' ++ d.digits
  else if d.point ≥ n then d.digits ++ List.replicate (d.point - n).toNat '0' ++ ['.', '0']
  else d.digits.take d.point.toNat ++ '.' :: d.digits.drop d.point.toNat

/-- Digits with a point behind the first of them and the exponent, signed and of at least two
digits. -/
def scientific (d : Digits) : List Char :=
  let e := d.point - 1
  let mantissa := match d.digits with
    | first :: second :: rest => first :: '.' :: second :: rest
    | ds => ds
  mantissa ++ 'e' :: (if e < 0 then '-' else '+') :: Decimal.padded 2 e.natAbs

/-- A double in a layout. -/
def characters (layout : Layout) : Binary64 → List Char
  | .nan => layout.nan.toList
  | .infinity negative => (if negative then ['-'] else []) ++ layout.infinity.toList
  | .finite negative m e =>
    (if negative then ['-'] else []) ++
      if m = 0 then ['0', '.', '0']
      else
        let d := digitsOf m e
        if layout.positionalAbove < d.point ∧ d.point ≤ layout.positionalUpTo then positional d
        else scientific d

end Shortest

end PageBlocks.Number
