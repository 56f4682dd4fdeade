import PageBlocks.Text.Hex
import PageBlocks.Text.Search

/-!
# Character references

The reader of character references: `&#65;` by a code point in decimal, `&#x41;` in hexadecimal,
and `&amp;` by a name. The semicolon may be left out. References to impossible code points become
the replacement character, references to code points that are no characters become nothing, and
those to the second control range are taken as characters of the Windows code page.
-/

set_option autoImplicit false

namespace PageBlocks.Markup.Entity

open PageBlocks.Text

/-- The named references. -/
def names : List (List Char × Char) :=
  [("amp".toList, '&'), ("lt".toList, '<'), ("gt".toList, '>'), ("quot".toList, '\x22'),
    ("nbsp".toList, '\u00a0'), ("copy".toList, '\u00a9')]

/-- The code points that `0x80` to `0x9f` stand for. -/
def windowsPage : List Nat :=
  [0x20ac, 0x81, 0x201a, 0x192, 0x201e, 0x2026, 0x2020, 0x2021, 0x2c6, 0x2030, 0x160, 0x2039,
    0x152, 0x8d, 0x17d, 0x8f, 0x90, 0x2018, 0x2019, 0x201c, 0x201d, 0x2022, 0x2013, 0x2014, 0x2dc,
    0x2122, 0x161, 0x203a, 0x153, 0x9d, 0x17e, 0x178]

/-- The code points that are no characters, as far as they can be referred to. -/
def isNoncharacter (n : Nat) : Bool :=
  (1 ≤ n && n ≤ 8) || n = 11 || (14 ≤ n && n ≤ 31) || n = 127 || (0xfdd0 ≤ n && n ≤ 0xfdef)
    || n % 0x10000 ≥ 0xfffe

/-- The text that a code point stands for in a reference. -/
def ofCodePoint (n : Nat) : List Char :=
  if n = 0 then ['\ufffd']
  else if 0x80 ≤ n ∧ n ≤ 0x9f then [Char.ofNat (windowsPage.getD (n - 0x80) n)]
  else if (0xd800 ≤ n ∧ n ≤ 0xdfff) ∨ n > 0x10ffff then ['\ufffd']
  else if isNoncharacter n then []
  else [Char.ofNat n]

/-- The text behind an optional semicolon. -/
def skipSemicolon : List Char → List Char
  | ';' :: rest => rest
  | cs => cs

/-- Digits at the start of a text that form a numeric reference, and what follows it. -/
def numeric? (base : Nat) (isDigit : Char → Bool) (cs : List Char) :
    Option (List Char × List Char) :=
  let ds := cs.takeWhile isDigit
  if ds.isEmpty then none
  else
    let n := ds.foldl (fun n c => base * n + (Hex.value? c).getD 0) 0
    some (ofCodePoint n, skipSemicolon (cs.dropWhile isDigit))

/-- The reference behind an ampersand: the text it stands for, and what follows it. -/
def leading? (cs : List Char) : Option (List Char × List Char) :=
  match cs with
  | '#' :: 'x' :: rest | '#' :: 'X' :: rest => numeric? 16 (fun c => (Hex.value? c).isSome) rest
  | '#' :: rest => numeric? 10 Char.isDigit rest
  | cs =>
    names.findSome? fun entry =>
      (after? entry.1 cs).map fun rest => ([entry.2], skipSemicolon rest)

theorem length_skipSemicolon_le (cs : List Char) : (skipSemicolon cs).length ≤ cs.length := by
  unfold skipSemicolon
  split <;> simp

/-- The characters that a text stands for once its references are resolved; `fuel` bounds their
number. -/
def decodeFrom : Nat → List Char → List Char
  | 0, cs => cs
  | _ + 1, [] => []
  | fuel + 1, c :: rest =>
    if c = '&' then
      match leading? rest with
      | some (shown, rest) => shown ++ decodeFrom fuel rest
      | none => c :: decodeFrom fuel rest
    else c :: decodeFrom fuel rest

/-- A text with its character references resolved. Every step uses up a character, so the length
of the text bounds their number. -/
def decode (cs : List Char) : List Char := decodeFrom cs.length cs

end PageBlocks.Markup.Entity
