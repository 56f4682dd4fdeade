/-!
# UTF-8

Characters as one to four bytes, and the strict reader: it refuses stray continuation bytes,
overlong forms, surrogate code points and code points above U+10FFFF, so each text has exactly one
byte form.
-/

set_option autoImplicit false

namespace PageBlocks.Text

/-- A byte string. -/
abbrev Bytes := List UInt8

namespace Utf8

/-- The bytes of one character, the fewest that hold its code point. -/
def encodeChar (c : Char) : Bytes :=
  let n := c.toNat
  if n < 0x80 then [UInt8.ofNat n]
  else if n < 0x800 then [UInt8.ofNat (0xC0 + n / 64), UInt8.ofNat (0x80 + n % 64)]
  else if n < 0x10000 then
    [UInt8.ofNat (0xE0 + n / 4096), UInt8.ofNat (0x80 + n / 64 % 64), UInt8.ofNat (0x80 + n % 64)]
  else
    [UInt8.ofNat (0xF0 + n / 262144), UInt8.ofNat (0x80 + n / 4096 % 64),
      UInt8.ofNat (0x80 + n / 64 % 64), UInt8.ofNat (0x80 + n % 64)]

/-- The bytes of a character sequence. -/
def encode (cs : List Char) : Bytes := cs.flatMap encodeChar

/-- The six payload bits of a continuation byte. -/
def tail? (b : UInt8) : Option Nat :=
  if 0x80 ≤ b.toNat ∧ b.toNat < 0xC0 then some (b.toNat - 0x80) else none

/-- The character of code point `n`, if `n` is one and needs more room than `floor` leaves. -/
def char? (floor n : Nat) : Option Char :=
  if h : n.isValidChar then if floor ≤ n then some (Char.ofNatAux n h) else none else none

/-- The characters that a byte string spells, or none if it is not well formed. -/
def decode : Bytes → Option (List Char)
  | [] => some []
  | a :: rest =>
    if a.toNat < 0x80 then (decode rest).map (Char.ofNat a.toNat :: ·)
    else if a.toNat < 0xC0 then none
    else match rest with
      | [] => none
      | b :: rest =>
        if a.toNat < 0xE0 then do
          let y ← tail? b
          let c ← char? 0x80 (64 * (a.toNat - 0xC0) + y)
          return c :: (← decode rest)
        else match rest with
          | [] => none
          | d :: rest =>
            if a.toNat < 0xF0 then do
              let y ← tail? b
              let z ← tail? d
              let c ← char? 0x800 (4096 * (a.toNat - 0xE0) + 64 * y + z)
              return c :: (← decode rest)
            else match rest with
              | [] => none
              | e :: rest =>
                if a.toNat < 0xF8 then do
                  let x ← tail? b
                  let y ← tail? d
                  let z ← tail? e
                  let c ← char? 0x10000 (262144 * (a.toNat - 0xF0) + 4096 * x + 64 * y + z)
                  return c :: (← decode rest)
                else none

/-- The bytes of a text. -/
def ofText (s : String) : Bytes := encode s.toList

/-- The text that a byte string spells. -/
def toText? (bytes : Bytes) : Option String := (decode bytes).map String.ofList

end Utf8

end PageBlocks.Text
