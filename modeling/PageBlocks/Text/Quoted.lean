import PageBlocks.Text.Hex
import PageBlocks.Text.Printable

/-!
# Quoted text

Text as messages show it. The quote is `'`, unless the text holds a `'` and no double quote. The
quote, the backslash and the three common controls are written with a backslash, other characters
that are not printable by their code point in two, four or eight digits.
-/

set_option autoImplicit false

namespace PageBlocks.Text.Quoted

/-- A code point by its digits: `\xNN`, `\uNNNN` or `\UNNNNNNNN`, the shortest that holds it. -/
def codePoint (n : Nat) : List Char :=
  if n < 0x100 then '\x5c' :: 'x' :: Hex.ofNat 2 n
  else if n < 0x10000 then '\x5c' :: 'u' :: Hex.ofNat 4 n
  else '\x5c' :: 'U' :: Hex.ofNat 8 n

/-- The escape of the characters that have one of their own: the quote itself, the backslash, line
feed, carriage return and tab. -/
def shortEscape? (quote c : Char) : Option (List Char) :=
  if c = quote ∨ c = '\x5c' then some ['\x5c', c]
  else if c = '\n' then some ['\x5c', 'n']
  else if c = '\r' then some ['\x5c', 'r']
  else if c = '\t' then some ['\x5c', 't']
  else none

/-- One character between quotes. -/
def character (quote c : Char) : List Char :=
  match shortEscape? quote c with
  | some escape => escape
  | none => if isPrintable c then [c] else codePoint c.toNat

/-- The quote that a character sequence is shown in. -/
def quoteFor (cs : List Char) : Char :=
  if cs.contains '\x27' && !cs.contains '\x22' then '\x22' else '\x27'

/-- A character sequence between quotes. -/
def characters (cs : List Char) : List Char :=
  let quote := quoteFor cs
  quote :: cs.flatMap (character quote) ++ [quote]

/-- A text between quotes. -/
def text (s : String) : String := String.ofList (characters s.toList)

/-- One byte between quotes: printable ASCII as it is, every other byte by two digits. -/
def byte (quote : Char) (b : UInt8) : List Char :=
  let c := Char.ofNat b.toNat
  match shortEscape? quote c with
  | some escape => escape
  | none => if 32 ≤ b.toNat ∧ b.toNat < 127 then [c] else codePoint b.toNat

/-- A byte string between quotes, marked with a leading `b`. -/
def bytes (bs : List UInt8) : List Char :=
  let quote := quoteFor (bs.map fun b => Char.ofNat b.toNat)
  'b' :: quote :: bs.flatMap (byte quote) ++ [quote]

end PageBlocks.Text.Quoted
