import PageBlocks.Json.Text
import PageBlocks.Number.Reading
import PageBlocks.Text.Search
import PageBlocks.Value

/-!
# JSON read as values

The reader of JSON texts. Numbers with a fraction or an exponent become doubles, and the three
names `NaN`, `Infinity` and `-Infinity` are read as such. Of two entries with one key the last one
counts, at the place of the first.
-/

set_option autoImplicit false

namespace PageBlocks.Json

open PageBlocks.Number

/-- The blanks between tokens. -/
def isSpace (c : Char) : Bool := c = ' ' || c = '\t' || c = '\n' || c = '\r'

/-- The text behind leading blanks. -/
def skip (cs : List Char) : List Char := cs.dropWhile isSpace

/-- The digits of a whole part, without superfluous leading zeros, and what follows. -/
def wholePart? (cs : List Char) : Option (List Char × List Char) :=
  match cs with
  | '0' :: rest => some (['0'], rest)
  | _ =>
    let ds := cs.takeWhile Decimal.isDigit
    if ds.isEmpty then none else some (ds, cs.dropWhile Decimal.isDigit)

/-- A point with digits behind it, if the text starts with both. -/
def fractionPart? : List Char → Option (List Char × List Char)
  | '.' :: rest =>
    let ds := rest.takeWhile Decimal.isDigit
    if ds.isEmpty then none else some (ds, rest.dropWhile Decimal.isDigit)
  | _ => none

/-- The sign at the start of a text, if there is one, and what follows it. -/
def signPart : List Char → List Char × List Char
  | '-' :: rest => (['-'], rest)
  | '+' :: rest => (['+'], rest)
  | rest => ([], rest)

/-- An exponent mark with a signed run of digits behind it, if the text starts with both. -/
def exponentPart? : List Char → Option (Int × List Char)
  | mark :: rest =>
    if mark = 'e' ∨ mark = 'E' then
      let signed := signPart rest
      let ds := signed.2.takeWhile Decimal.isDigit
      if ds.isEmpty then none
      else some (Reading.exponentValue (signed.1 ++ ds), signed.2.dropWhile Decimal.isDigit)
    else none
  | [] => none

/-- Whether a number starts with a minus sign, and what follows it. -/
def minusPart : List Char → Bool × List Char
  | '-' :: rest => (true, rest)
  | rest => (false, rest)

/-- A part of a text that may be left out, and what follows it. -/
def optional {α : Type} (part? : List Char → Option (α × List Char)) (cs : List Char) :
    Option α × List Char :=
  match part? cs with
  | some (found, rest) => (some found, rest)
  | none => (none, cs)

/-- The number of a whole part, a fraction and an exponent. It is a double if it has one of the
latter two, else an integer, of which only so many digits can be read. -/
def ofParts? (negative : Bool) (whole : List Char) : Option (List Char) → Option Int → Option Value
  | none, none =>
    if whole.length > Decimal.readLimit then none
    else
      let n := Decimal.ofDigits whole
      some (.int (if negative then -(n : Int) else n))
  | fraction, exponent =>
    let ds := fraction.getD []
    some (.real (Reading.scaledDecimal negative (whole ++ ds) (exponent.getD 0 - ds.length)))

/-- A number, and what follows it. -/
def number? (cs : List Char) : Option (Value × List Char) := do
  let (negative, rest) := minusPart cs
  let (whole, rest) ← wholePart? rest
  let (fraction, rest) := optional fractionPart? rest
  let (exponent, rest) := optional exponentPart? rest
  let v ← ofParts? negative whole fraction exponent
  return (v, rest)

/-- The names that stand for values. -/
def words : List (List Char × Value) :=
  [("null".toList, .null), ("true".toList, .bool true), ("false".toList, .bool false),
    ("NaN".toList, .real .nan), ("Infinity".toList, .real (.infinity false)),
    ("-Infinity".toList, .real (.infinity true))]

/-- A value that is a name, and what follows it. -/
def word? (cs : List Char) : Option (Value × List Char) :=
  words.findSome? fun word => (PageBlocks.Text.after? word.1 cs).map fun rest => (word.2, rest)

mutual

/-- A value at the start of a text, and what follows it. The first argument bounds the nesting. -/
def value? : Nat → List Char → Option (Value × List Char)
  | 0, _ => none
  | depth + 1, cs =>
    match cs with
    | '\x22' :: rest => do
      let (s, rest) ← Text.body rest
      return (.text (String.ofList s), rest)
    | '[' :: rest =>
      match skip rest with
      | ']' :: rest => some (.list [], rest)
      | rest => do
        let (items, rest) ← items? depth rest.length rest
        return (.list items, rest)
    | '\x7b' :: rest =>
      match skip rest with
      | '\x7d' :: rest => some (.map [], rest)
      | rest => do
        let (entries, rest) ← entries? depth rest.length rest
        return (.map (Table.ofBindings entries), rest)
    | cs =>
      match word? cs with
      | some found => some found
      | none => number? cs

/-- The items of a list up to its closing bracket, at least one; the second argument bounds their
count. -/
def items? : Nat → Nat → List Char → Option (List Value × List Char)
  | _, 0, _ => none
  | depth, count + 1, cs => do
    let (item, rest) ← value? depth cs
    match skip rest with
    | ']' :: rest => return ([item], rest)
    | ',' :: rest =>
      let (items, rest) ← items? depth count (skip rest)
      return (item :: items, rest)
    | _ => none

/-- The entries of a map up to its closing brace, at least one; the second argument bounds their
count. -/
def entries? : Nat → Nat → List Char → Option (List (Value × Value) × List Char)
  | _, 0, _ => none
  | depth, count + 1, cs =>
    match cs with
    | '\x22' :: rest => do
      let (k, rest) ← Text.body rest
      match skip rest with
      | ':' :: rest =>
        let (v, rest) ← value? depth (skip rest)
        let entry := (Value.text (String.ofList k), v)
        match skip rest with
        | '\x7d' :: rest => return ([entry], rest)
        | ',' :: rest =>
          let (entries, rest) ← entries? depth count (skip rest)
          return (entry :: entries, rest)
        | _ => none
      | _ => none
    | _ => none

end

/-- The value that a whole text spells, with blanks around it. No text nests deeper than it is
long, so the bound on the nesting never shows. -/
def read? (cs : List Char) : Option Value :=
  match value? (cs.length + 1) (skip cs) with
  | some (v, rest) => if (skip rest).isEmpty then some v else none
  | none => none

end PageBlocks.Json
