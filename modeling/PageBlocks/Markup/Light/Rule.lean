import PageBlocks.Markup.Light.Symbol

/-!
# Rules of running text

A rule says what becomes of the symbols at one place of a text. Rules are applied at the first place
that they fit, from the start of the text again after each success. The rules for code, for
characters behind a backslash, for line ends, for tags and for marks that stand alone are given
here.
-/

set_option autoImplicit false

namespace PageBlocks.Markup.Light

/-- What a rule makes of the symbols from some place on, given the symbol before that place: what
replaces the first of them, and the others. -/
abbrev Rule := Option Symbol → List Symbol → Option (List Symbol × List Symbol)

/-- The text after a rule was applied at the first place where it fits. -/
def Rule.applyFirst? (rule : Rule) (before : Option Symbol) : List Symbol → Option (List Symbol)
  | [] => none
  | s :: rest =>
    match rule before (s :: rest) with
    | some (made, rest) => some (made ++ rest)
    | none => (Rule.applyFirst? rule (some s) rest).map (s :: ·)

/-- The text after a rule was applied as often as it fits, at most `fuel` times. -/
def Rule.applyFrom (rule : Rule) : Nat → List Symbol → List Symbol
  | 0, line => line
  | fuel + 1, line =>
    match rule.applyFirst? none line with
    | some line => Rule.applyFrom rule fuel line
    | none => line

/-- The text after a rule was applied as often as it fits. Every rule closes at least one open
character, so their number bounds the applications. -/
def Rule.apply (rule : Rule) (line : List Symbol) : List Symbol := rule.applyFrom line.length line

/-- What follows a number of equal marks at the start of a text. -/
def marks? (mark : Char) : Nat → List Symbol → Option (List Symbol)
  | 0, line => some line
  | n + 1, s :: rest => if s.isChar mark then marks? mark n rest else none
  | _ + 1, [] => none

/-- Whether a text starts with a mark. -/
def startsWith (mark : Char) (line : List Symbol) : Bool := line.head?.any (·.isChar mark)

/-- The number of equal marks at the start of a text. -/
def markCount (mark : Char) (line : List Symbol) : Nat :=
  (line.takeWhile (·.isChar mark)).length

/-- The shortest split of a text, with at least some number of symbols in its first part, whose
second part is accepted; the symbol before the second part is shown to `accept`. -/
def split? {α : Type} (accept : Symbol → List Symbol → Option α) (least : Nat) (before : Symbol) :
    List Symbol → Option (List Symbol × α)
  | [] => if least = 0 then (accept before []).map fun a => ([], a) else none
  | s :: rest =>
    match if least = 0 then accept before (s :: rest) else none with
    | some a => some ([], a)
    | none => (split? accept (least - 1) s rest).map fun parts => (s :: parts.1, parts.2)

/-! ## Code -/

/-- The characters of code; what was marked in it before shows nothing. -/
def codeText (inside : List Symbol) : List Char :=
  (Text.trim (inside.filterMap Symbol.shown?)).flatMap guarded

/-- Code between two runs of exactly as many backticks, of the given number or fewer. -/
def code? : Nat → List Symbol → Option (List Symbol × List Symbol)
  | 0, _ => none
  | n + 1, line =>
    let closing := fun (before : Symbol) (rest : List Symbol) =>
      if before.isChar '\x60' || startsWith '\x60' (rest.drop (n + 1)) then none
      else marks? '\x60' (n + 1) rest
    match split? closing 1 (.char '\x60') (line.drop (n + 1)) with
    | some (inside, rest) => some ([.element "code" [.ready (codeText inside)]], rest)
    | none => code? n line

/-- Code between backticks. Pairs of backslashes before a backtick stand for one backslash each; a
single one keeps the backtick from being a mark. -/
def codeRule : Rule := fun before line =>
  if before.any (·.isChar '\x5c') then none
  else
    let slashes := markCount '\x5c' line
    if slashes = 0 then code? (markCount '\x60' line) line
    else if slashes % 2 = 0 && startsWith '\x60' (line.drop slashes) then
      some (List.replicate (slashes / 2) (.literal '\x5c'), line.drop slashes)
    else none

/-! ## Single characters, line ends and tags -/

/-- The characters that a backslash makes stand for themselves. -/
def escapable : List Char := "\\\x60*_\x7b\x7d[]()>#+-.!".toList

/-- A character behind a backslash. -/
def escapeRule : Rule := fun _ line =>
  match line with
  | .char '\x5c' :: .char c :: rest =>
    if escapable.contains c then some ([.literal c], rest) else none
  | _ => none

/-- Two spaces at the end of a line keep the line end. -/
def breakRule : Rule := fun _ line =>
  match line with
  | .char ' ' :: .char ' ' :: .char '\n' :: rest => some ([.lineBreak], rest)
  | _ => none

/-- The characters of a tag. -/
def tagText (inside : List Symbol) : List Char := inside.filterMap Symbol.shown?

/-- A tag: its name right behind the opening bracket, and no bracket inside of it. -/
def tagRule : Rule := fun _ line =>
  match line with
  | .char '<' :: rest =>
    let name := if startsWith '/' rest then rest.drop 1 else rest
    match name with
    | .char c :: _ =>
      let isBracket := fun (s : Symbol) => s.isChar '<' || s.isChar '>'
      let inside := rest.takeWhile fun s => !isBracket s
      let word := inside.takeWhile fun s => !s.isChar ' '
      let behind := rest.drop inside.length
      if c.isAlpha && !word.any (·.isChar '@') && startsWith '>' behind then
        some ([.ready ('<' :: tagText inside ++ ['>'])], behind.drop 1)
      else none
    | _ => none
  | _ => none

/-! ## Marks that stand alone -/

/-- Up to three equal marks between blanks, or at an end of the text, stand for themselves. -/
def loneRule : Rule := fun before line =>
  let alone := fun mark =>
    let count := markCount mark line
    if 1 ≤ count && count ≤ 3 && (line.drop count).head?.all Symbol.isBlank then
      some (List.replicate count (Symbol.literal mark), line.drop count)
    else none
  if before.all Symbol.isBlank then
    match alone '*' with
    | some made => some made
    | none => alone '_'
  else none

end PageBlocks.Markup.Light
