import PageBlocks.Number.Decimal
import PageBlocks.Number.Binary64
import PageBlocks.Text.Blank

/-!
# Numbers read from text

Integers as people type them into a setting, and decimals with fraction and exponent.
-/

set_option autoImplicit false

namespace PageBlocks.Number.Reading

/-- The zeros of the decimal digit ranges of Unicode 14.0; each range runs from `0` to `9`. -/
def zeros : List Nat :=
  [48, 1632, 1776, 1984, 2406, 2534, 2662, 2790, 2918, 3046, 3174, 3302, 3430, 3558, 3664, 3792,
    3872, 4160, 4240, 6112, 6160, 6470, 6608, 6784, 6800, 6992, 7088, 7232, 7248, 42528, 43216,
    43264, 43472, 43504, 43600, 44016, 65296, 66720, 68912, 69734, 69872, 69942, 70096, 70384,
    70736, 70864, 71248, 71360, 71472, 71904, 72016, 72784, 73040, 73120, 92768, 92864, 93008,
    120782, 120792, 120802, 120812, 120822, 123200, 123632, 125264, 130032]

/-- The value of a decimal digit of any script. -/
def digitValue? (c : Char) : Option Nat :=
  zeros.findSome? fun start =>
    if start ≤ c.toNat ∧ c.toNat < start + 10 then some (c.toNat - start) else none

/-- The blanks that may surround an integer: all but the information separators. -/
def isPadding (c : Char) : Bool := Text.isBlank c && !(28 ≤ c.toNat && c.toNat ≤ 31)

/-- The values of digits in which a single underscore may stand between two digits. `afterDigit`
says whether the last character was a digit. -/
def digitValues? (afterDigit : Bool) : List Char → Option (List Nat)
  | [] => if afterDigit then some [] else none
  | c :: rest =>
    if c = '_' then if afterDigit then digitValues? false rest else none
    else do
      let d ← digitValue? c
      return d :: (← digitValues? true rest)

/-- The integer that a text spells: blanks around it, one sign, digits of any script, single
underscores between digits, and no more digits than may be read. -/
def int? (s : String) : Option Int :=
  let cs := ((s.toList.dropWhile isPadding).reverse.dropWhile isPadding).reverse
  let (negative, cs) := match cs with
    | '-' :: rest => (true, rest)
    | '+' :: rest => (false, rest)
    | cs => (false, cs)
  match digitValues? false cs with
  | none => none
  | some ds =>
    if ds.length > Decimal.readLimit then none
    else
      let n : Nat := ds.foldl (fun n d => 10 * n + d) 0
      some (if negative then -(n : Int) else n)

/-- The double nearest to `digits · 10 ^ exponent`. A decimal point so far out that the value
overflows or vanishes is not computed with. -/
def scaledDecimal (negative : Bool) (digits : List Char) (exponent : Int) : Binary64 :=
  let ds := digits.dropWhile (· = '0')
  let place : Int := ds.length + exponent
  if ds.isEmpty || place < -400 then .finite negative 0 Binary64.minExponent
  else if place > 400 then .infinity negative
  else
    let n := Decimal.ofDigits ds
    Binary64.ofRatio negative (n * power 10 exponent) (power 10 (-exponent))

/-- A signed run of digits as an integer; no digits count as zero. -/
def exponentValue : List Char → Int
  | '-' :: ds => -(Decimal.ofDigits ds : Int)
  | '+' :: ds => Decimal.ofDigits ds
  | ds => Decimal.ofDigits ds

/-- The double that a decimal spells: an optional sign, digits with an optional point, an optional
exponent; or one of the names of the values that are no finite numbers. -/
def binary64? (s : String) : Option Binary64 :=
  let (negative, cs) := match s.toList with
    | '-' :: rest => (true, rest)
    | cs => (false, cs)
  if cs = ['n', 'a', 'n'] then some .nan
  else if cs = ['i', 'n', 'f'] then some (.infinity negative)
  else
    let whole := cs.takeWhile Decimal.isDigit
    let rest := cs.dropWhile Decimal.isDigit
    let (fraction, rest) := match rest with
      | '.' :: rest => (rest.takeWhile Decimal.isDigit, rest.dropWhile Decimal.isDigit)
      | rest => ([], rest)
    if whole.isEmpty && fraction.isEmpty then none
    else match rest with
      | [] => some (scaledDecimal negative (whole ++ fraction) (-fraction.length))
      | mark :: exponent =>
        if mark = 'e' ∨ mark = 'E' then
          some (scaledDecimal negative (whole ++ fraction)
            (exponentValue exponent - fraction.length))
        else none

end PageBlocks.Number.Reading
