import PageBlocks.Number.Reading
import PageBlocks.Text.Hex
import PageBlocks.Text.Name
import PageBlocks.Text.Quoted
import PageBlocks.Text.Search

/-!
# Segments of brace-tag texts

A text in the brace-tag language alternates between literal text and marked regions: outputs
between double braces, tags between brace and percent sign, and comments between brace and number
sign. Outputs and tags are cut into tokens here. A region ends at its closing mark, except inside of
brackets. A minus sign next to a mark takes away the blanks on the other side of it; a plus sign
behind an opening mark, or before the closing mark of a tag or a comment, changes nothing.
-/

set_option autoImplicit false

namespace PageBlocks.Body.Braces

open PageBlocks.Number PageBlocks.Text

/-- A token of an output or a tag. -/
inductive Token where
  | name (s : String)
  | text (s : String)
  | int (n : Nat)
  /-- A bracket or another sign. -/
  | sign (c : Char)
  deriving DecidableEq

/-- A part of a text. -/
inductive Segment where
  | text (s : String)
  | output (tokens : List Token)
  | tag (tokens : List Token)

/-- A text with all line ends written as line feeds. -/
def normalizeLines : List Char → List Char
  | '\r' :: '\n' :: rest => '\n' :: normalizeLines rest
  | '\r' :: rest => '\n' :: normalizeLines rest
  | c :: rest => c :: normalizeLines rest
  | [] => []

/-! ## Strings -/

/-- The character that a letter behind a backslash stands for. -/
def escape? (c : Char) : Option Char :=
  if c = 'n' then some '\n'
  else if c = 't' then some '\t'
  else if c = 'r' then some '\r'
  else if c = 'a' then some '\x07'
  else if c = 'b' then some '\x08'
  else if c = 'f' then some '\x0c'
  else if c = 'v' then some '\x0b'
  else if c = '\x5c' ∨ c = '\x27' ∨ c = '\x22' then some c
  else none

/-- The number of digits behind the letter of a code point escape. -/
def codeWidth? (c : Char) : Option Nat :=
  if c = 'x' then some 2 else if c = 'u' then some 4 else if c = 'U' then some 8 else none

/-- Octal digits. -/
def isOctal (c : Char) : Bool := 48 ≤ c.toNat && c.toNat ≤ 55

/-- The characters of a quoted string whose inside is given, with its escapes resolved; `fuel`
bounds the number of steps. An unknown escape stays as it is, with a character beyond ASCII written
by its code point; characters cannot be given by their names, so the letter for that is refused. -/
def unescapeFrom : Nat → List Char → Option (List Char)
  | 0, _ => some []
  | _ + 1, [] => some []
  | fuel + 1, '\x5c' :: c :: rest =>
    match escape? c, codeWidth? c with
    | some shown, _ => (unescapeFrom fuel rest).map (shown :: ·)
    | none, some width => do
      let n ← Hex.toNat? (rest.take width)
      if (rest.take width).length = width ∧ n.isValidChar then
        return Char.ofNat n :: (← unescapeFrom fuel (rest.drop width))
      else none
    | none, none =>
      if c = 'N' then none
      else if c = '\n' then unescapeFrom fuel rest
      else if isOctal c then
        let digits := (c :: rest).takeWhile isOctal |>.take 3
        let n := digits.foldl (fun n d => 8 * n + (d.toNat - 48)) 0
        (unescapeFrom fuel ((c :: rest).drop digits.length)).map (Char.ofNat n :: ·)
      else if c.toNat < 128 then (unescapeFrom fuel rest).map fun cs => '\x5c' :: c :: cs
      else (unescapeFrom fuel rest).map (Quoted.codePoint c.toNat ++ ·)
  | fuel + 1, c :: rest => (unescapeFrom fuel rest).map (c :: ·)

/-- The inside of a string up to the closing quote, and what follows. -/
def quotedPart? (quote : Char) : List Char → Option (List Char × List Char)
  | [] => none
  | '\x5c' :: c :: rest => do
    let (inside, rest) ← quotedPart? quote rest
    return ('\x5c' :: c :: inside, rest)
  | c :: rest =>
    if c = quote then some ([], rest)
    else do
      let (inside, rest) ← quotedPart? quote rest
      return (c :: inside, rest)

/-! ## Tokens -/

/-- The number that goes on with digits, each of which may stand behind an underscore, and what
follows it. -/
def digitRun (base : Nat) (digit? : Char → Option Nat) (n : Nat) : List Char → Nat × List Char
  | [] => (n, [])
  | '_' :: c :: rest =>
    match digit? c with
    | some d => digitRun base digit? (base * n + d) rest
    | none => (n, '_' :: c :: rest)
  | c :: rest =>
    match digit? c with
    | some d => digitRun base digit? (base * n + d) rest
    | none => (n, c :: rest)

/-- The value of a digit in a base: a decimal digit of any script, or a letter. -/
def digitBelow? (base : Nat) (c : Char) : Option Nat :=
  ((Reading.digitValue? c).or (Hex.value? c)).filter (· < base)

/-- The base that a letter behind a zero stands for, with its digits. Only hexadecimal numbers take
digits of other scripts. -/
def radix? (letter : Char) : Option (Nat × (Char → Option Nat)) :=
  let ascii := fun base c => if c.toNat < 128 then digitBelow? base c else none
  if letter = 'b' ∨ letter = 'B' then some (2, ascii 2)
  else if letter = 'o' ∨ letter = 'O' then some (8, ascii 8)
  else if letter = 'x' ∨ letter = 'X' then some (16, digitBelow? 16)
  else none

/-- A number of zeros alone. No other decimal number starts with a zero. -/
def zeros (cs : List Char) : Nat × List Char :=
  digitRun 10 (fun c => if c = '0' then some 0 else none) 0 cs

/-- The number at the start of a text, and what follows it. -/
def number? : List Char → Option (Nat × List Char)
  | [] => none
  | '0' :: letter :: rest =>
    match radix? letter with
    | some (base, digit?) =>
      let (n, behind) := digitRun base digit? 0 rest
      -- without a digit the letter is no part of the number
      if behind.length < rest.length then some (n, behind) else some (0, letter :: rest)
    | none => some (zeros (letter :: rest))
  | c :: rest =>
    if Decimal.isDigit c then some (digitRun 10 Reading.digitValue? (c.toNat - 48) rest) else none

/-- The name at the start of a text that starts with a character of names, and what follows it. -/
def name? (cs : List Char) : Option (String × List Char) :=
  let word := cs.takeWhile isNamePart
  if isName word then some (String.ofList word, cs.dropWhile isNamePart) else none

/-- What follows the closing mark at the start of a text, if there is one, and whether the blanks
behind the region go away; `closing` is the first character of the mark, which a brace completes. -/
def closing? (closing : Char) (cs : List Char) : Option (Bool × List Char) :=
  match cs with
  | '-' :: rest => if rest.take 2 = [closing, '\x7d'] then some (true, rest.drop 2) else none
  | '+' :: rest =>
    if closing = '%' ∧ rest.take 2 = [closing, '\x7d'] then some (false, rest.drop 2) else none
  | cs => if cs.take 2 = [closing, '\x7d'] then some (false, cs.drop 2) else none

/-- The tokens of a region and what follows its closing mark. Here `depth` counts the open brackets
and `fuel` bounds the number of steps; the flag says whether the blanks behind the region go
away. -/
def tokens? (closing : Char) : Nat → Nat → List Char → Option (List Token × Bool × List Char)
  | 0, _, _ => none
  | _ + 1, _, [] => none
  | fuel + 1, depth, c :: rest =>
    match if depth = 0 then closing? closing (c :: rest) else none with
    | some (strip, rest) => some ([], strip, rest)
    | none =>
      if isBlank c then tokens? closing fuel depth rest
      else if c = '\x22' ∨ c = '\x27' then do
        let (inside, rest) ← quotedPart? c rest
        let shown ← unescapeFrom inside.length inside
        let (more, strip, rest) ← tokens? closing fuel depth rest
        return (.text (String.ofList shown) :: more, strip, rest)
      else if Decimal.isDigit c then do
        let (n, rest) ← number? (c :: rest)
        let (more, strip, rest) ← tokens? closing fuel depth rest
        return (.int n :: more, strip, rest)
      else if isNamePart c then do
        let (word, rest) ← name? (c :: rest)
        let (more, strip, rest) ← tokens? closing fuel depth rest
        return (.name word :: more, strip, rest)
      else do
        let opens := c = '(' ∨ c = '[' ∨ c = '\x7b'
        let closes := c = ')' ∨ c = ']' ∨ c = '\x7d'
        if closes ∧ depth = 0 then none
        else
          let depth := if opens then depth + 1 else if closes then depth - 1 else depth
          let (more, strip, rest) ← tokens? closing fuel depth rest
          return (.sign c :: more, strip, rest)

/-! ## Segments -/

/-- The text before the next opening mark, the second character of the mark, and what follows. -/
def untilMark : List Char → List Char × Option (Char × List Char)
  | '\x7b' :: c :: rest =>
    if c = '\x7b' ∨ c = '%' ∨ c = '#' then ([], some (c, rest))
    else
      let (text, found) := untilMark (c :: rest)
      ('\x7b' :: text, found)
  | c :: rest =>
    let (text, found) := untilMark rest
    (c :: text, found)
  | [] => ([], none)

/-- A literal text as a segment, if there is any. -/
def literal (cs : List Char) : List Segment :=
  if cs.isEmpty then [] else [.text (String.ofList cs)]

/-- A text without the blanks at its end. -/
def trimEnd (cs : List Char) : List Char := (cs.reverse.dropWhile isBlank).reverse

/-- The text behind a comment, with or without the blanks at its start. A comment that starts where
the text ends is complete. -/
def behindComment? (cs : List Char) : Option (List Char) :=
  if cs.isEmpty then some []
  else do
    let (inside, rest) ← cut? ['#', '\x7d'] cs
    return if inside.getLast? = some '-' then rest.dropWhile isBlank else rest

/-- The sign that belongs to an opening mark, if there is one, and what follows it. -/
def markSign : List Char → Option Char × List Char
  | '-' :: rest => (some '-', rest)
  | '+' :: rest => (some '+', rest)
  | cs => (none, cs)

/-- The segments of a text; `fuel` bounds their number. -/
def segmentsFrom : Nat → List Char → Option (List Segment)
  | 0, _ => none
  | fuel + 1, cs =>
    match untilMark cs with
    | (text, none) => some (literal text)
    | (text, some (mark, rest)) => do
      let (sign, rest) := markSign rest
      let text := if sign = some '-' then trimEnd text else text
      if mark = '#' then
        return literal text ++ (← segmentsFrom fuel (← behindComment? rest))
      else
        let closing := if mark = '%' then '%' else '\x7d'
        let (tokens, strip, rest) ← tokens? closing (rest.length + 1) 0 rest
        let segment := if mark = '%' then Segment.tag tokens else .output tokens
        let rest := if strip then rest.dropWhile isBlank else rest
        return literal text ++ segment :: (← segmentsFrom fuel rest)

/-- The segments of a text, or none if a region is not closed or holds what is no token. -/
def segments? (cs : List Char) : Option (List Segment) :=
  segmentsFrom (cs.length + 1) (normalizeLines cs)

end PageBlocks.Body.Braces
