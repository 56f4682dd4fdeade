import PageBlocks.Text.Utf8

/-!
# Base 64

Bytes in groups of three, written as four characters of the standard alphabet, the last group
filled up with `=`. The reader takes such groups and nothing else: no other characters, and no data
after or between padding. Two liberties belong to the format that it reads: the unused low bits of
an incomplete group may be set, and padding that fills nothing may follow a complete group.
-/

set_option autoImplicit false

namespace PageBlocks.Text.Base64

/-- The character of a value below sixty-four. -/
def symbol (n : Nat) : Char :=
  if n < 26 then Char.ofNat (65 + n)
  else if n < 52 then Char.ofNat (71 + n)
  else if n < 62 then Char.ofNat (n - 4)
  else if n = 62 then '+' else '/'

/-- The value of a character of the alphabet. -/
def value? (c : Char) : Option Nat :=
  let n := c.toNat
  if 65 ≤ n && n ≤ 90 then some (n - 65)
  else if 97 ≤ n && n ≤ 122 then some (n - 71)
  else if 48 ≤ n && n ≤ 57 then some (n + 4)
  else if n = 43 then some 62
  else if n = 47 then some 63
  else none

/-- The written form of a byte string. -/
def encode : Bytes → List Char
  | [] => []
  | [a] => [symbol (a.toNat / 4), symbol (a.toNat % 4 * 16), '=', '=']
  | [a, b] =>
    [symbol (a.toNat / 4), symbol (a.toNat % 4 * 16 + b.toNat / 16), symbol (b.toNat % 16 * 4), '=']
  | a :: b :: c :: rest =>
    symbol (a.toNat / 4) :: symbol (a.toNat % 4 * 16 + b.toNat / 16)
      :: symbol (b.toNat % 16 * 4 + c.toNat / 64) :: symbol (c.toNat % 64) :: encode rest

/-- What may follow a complete group: further groups, or padding that fills nothing. -/
def decodeRest : List Char → Option Bytes
  | [] => some []
  | '=' :: rest => if rest.all (· = '=') then some [] else none
  | p :: q :: r :: s :: rest => do
    let x ← value? p
    let y ← value? q
    let first := UInt8.ofNat (4 * x + y / 16)
    if r = '=' then
      if s = '=' ∧ rest = [] then some [first] else none
    else do
      let z ← value? r
      let second := UInt8.ofNat (y % 16 * 16 + z / 4)
      if s = '=' then
        if rest = [] then some [first, second] else none
      else do
        let w ← value? s
        return first :: second :: UInt8.ofNat (z % 4 * 64 + w) :: (← decodeRest rest)
  | _ => none

/-- The bytes that a written form stands for. -/
def decode (cs : List Char) : Option Bytes :=
  if cs.head? = some '=' then none else decodeRest cs

end PageBlocks.Text.Base64
