import PageBlocks.Text.Hex

/-!
# JSON strings

Strings in double quotes and ASCII only: the quote, the backslash and five controls have short
escapes, every other character outside of the printable ASCII range is written as one or two UTF-16
units of four hexadecimal digits.
-/

set_option autoImplicit false

namespace PageBlocks.Json.Text

open PageBlocks.Text

/-- One UTF-16 unit. -/
def unit (n : Nat) : List Char := '\x5c' :: 'u' :: Hex.ofNat 4 n

/-- The short escape of a character. -/
def shortEscape? (c : Char) : Option Char :=
  if c = '\x22' ∨ c = '\x5c' then some c
  else if c = '\n' then some 'n'
  else if c = '\r' then some 'r'
  else if c = '\t' then some 't'
  else if c = '\x0c' then some 'f'
  else if c = '\x08' then some 'b'
  else none

/-- One character of a string. -/
def character (c : Char) : List Char :=
  match shortEscape? c with
  | some e => ['\x5c', e]
  | none =>
    let n := c.toNat
    if 32 ≤ n ∧ n < 127 then [c]
    else if n < 0x10000 then unit n
    else unit (0xD800 + (n - 0x10000) / 1024) ++ unit (0xDC00 + (n - 0x10000) % 1024)

/-- A string. -/
def encode (cs : List Char) : List Char := '\x22' :: cs.flatMap character ++ ['\x22']

/-- The character of a short escape. -/
def ofEscape? (c : Char) : Option Char :=
  if c = '\x22' ∨ c = '\x5c' ∨ c = '/' then some c
  else if c = 'b' then some '\x08'
  else if c = 'f' then some '\x0c'
  else if c = 'n' then some '\n'
  else if c = 'r' then some '\r'
  else if c = 't' then some '\t'
  else none

/-- The UTF-16 unit of four hexadecimal digits. -/
def unit? (a b c d : Char) : Option Nat := Hex.toNat? [a, b, c, d]

/-- The character of a code point outside of the surrogate range. -/
def scalar? (n : Nat) : Option Char :=
  if h : n.isValidChar then some (Char.ofNatAux n h) else none

/-- The characters of a string up to its closing quote, and what follows it. Controls have to be
escaped. A surrogate that is no half of a pair is no character, and refused. -/
def body : List Char → Option (List Char × List Char)
  | [] => none
  | '\x22' :: rest => some ([], rest)
  | '\x5c' :: 'u' :: a :: b :: c :: d :: rest => do
    let high ← unit? a b c d
    if 0xD800 ≤ high ∧ high < 0xDC00 then
      match rest with
      | '\x5c' :: 'u' :: e :: f :: g :: h :: rest =>
        let low ← unit? e f g h
        if 0xDC00 ≤ low ∧ low < 0xE000 then
          let c ← scalar? (0x10000 + (high - 0xD800) * 1024 + (low - 0xDC00))
          let (cs, rest) ← body rest
          return (c :: cs, rest)
        else none
      | _ => none
    else
      let c ← scalar? high
      let (cs, rest) ← body rest
      return (c :: cs, rest)
  | '\x5c' :: e :: rest => do
    let c ← ofEscape? e
    let (cs, rest) ← body rest
    return (c :: cs, rest)
  | c :: rest => do
    if c.toNat < 32 ∨ c = '\x5c' then none
    else
      let (cs, rest) ← body rest
      return (c :: cs, rest)

end PageBlocks.Json.Text
