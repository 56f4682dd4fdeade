import PageBlocks.Markup.Light.Rule

/-!
# Emphasis

Emphasised and strong text between stars or underscores. Each of the two marks has five patterns,
tried in order: two for three marks in a row, which open both kinds at once, one for strong text
that ends together with emphasised text in it, one for strong and one for emphasised text. Inside of
what a pattern has found only the later patterns are looked for. Underscores inside of words are no
marks.
-/

set_option autoImplicit false

namespace PageBlocks.Markup.Light

/-- What a pattern has found at the start of a text, and what follows. -/
inductive Finding where
  | single (tag : String) (inside rest : List Symbol)
  /-- An outer element that starts with an inner one around the first part. -/
  | opening (outer inner : String) (first second rest : List Symbol)
  /-- An outer element that ends with an inner one around the second part. -/
  | closing (outer inner : String) (first second rest : List Symbol)

/-- A pattern, applied to a text and the symbol before it. -/
abbrev Pattern := Option Symbol → List Symbol → Option Finding

/-! ## Patterns -/

/-- Three marks, closed by `first` and then by `second` of them. -/
def triple (mark : Char) (first second : Nat) (outer inner : String) : Pattern := fun _ line => do
  let rest ← marks? mark 3 line
  let (one, two, rest) ← split? (fun before rest => do
    let rest ← marks? mark first rest
    split? (fun _ => marks? mark second) 0 before rest) 1 (.char mark) rest
  return .opening outer inner one two rest

/-- Exactly two stars, closed by three that end an inner single star too. -/
def starsWithin : Pattern := fun _ line => do
  let rest ← marks? '*' 2 line
  let first := rest.takeWhile fun s => !s.isChar '*'
  let inner := rest.drop first.length
  if first.isEmpty || markCount '*' inner ≠ 1 then none
  else
    let (second, rest) ← split? (fun _ => marks? '*' 3) 1 (.char '*') (inner.drop 1)
    return .closing "strong" "em" first second rest

/-- Text between two stars on each side. -/
def strongStars : Pattern := fun _ line => do
  let (inside, rest) ← split? (fun _ => marks? '*' 2) 1 (.char '*') (← marks? '*' 2 line)
  return .single "strong" inside rest

/-- Text without stars between single stars. -/
def singleStars : Pattern := fun _ line => do
  let rest ← marks? '*' 1 line
  let inside := rest.takeWhile fun s => !s.isChar '*'
  let rest ← marks? '*' 1 (rest.drop inside.length)
  if inside.isEmpty then none else return .single "em" inside rest

/-- The patterns for stars. -/
def starPatterns : List Pattern :=
  [triple '*' 1 2 "strong" "em", triple '*' 2 1 "em" "strong", starsWithin, strongStars,
    singleStars]

/-- The text behind a number of underscores that neither follow a part of a word nor are followed
by another underscore. -/
def openingBars? (count : Nat) (before : Option Symbol) (line : List Symbol) :
    Option (List Symbol) := do
  let rest ← marks? '_' count line
  if before.any Symbol.isWord || startsWith '_' rest then none else return rest

/-- The text behind a number of underscores that no part of a word follows. -/
def closingBars? (count : Nat) (line : List Symbol) : Option (List Symbol) := do
  let rest ← marks? '_' count line
  if rest.head?.any Symbol.isWord then none else return rest

/-- Two underscores, closed by three that end an inner single one too. -/
def barsWithin : Pattern := fun before line => do
  let rest ← openingBars? 2 before line
  let (first, second, rest) ← split? (fun before rest => do
    let rest ← openingBars? 1 (some before) rest
    split? (fun _ => closingBars? 3) 1 (.char '_') rest) 1 (.char '_') rest
  return .closing "strong" "em" first second rest

/-- Text between a number of underscores on each side. -/
def bars (count : Nat) (tag : String) : Pattern := fun before line => do
  let (inside, rest) ← split? (fun before rest =>
    if before.isChar '_' then none else closingBars? count rest) 1 (.char '_')
    (← openingBars? count before line)
  return .single tag inside rest

/-- The patterns for underscores. -/
def barPatterns : List Pattern :=
  [triple '_' 1 2 "strong" "em", triple '_' 2 1 "em" "strong", barsWithin, bars 2 "strong",
    bars 1 "em"]

/-! ## Elements -/

/-- Text, and elements with the text behind each. -/
abbrev Pieces := List Symbol × List (Symbol × List Symbol)

/-- The pieces of a text that starts with elements. -/
def piecesFrom : List Symbol → Pieces → Pieces
  | [], pieces => pieces
  | e :: more, pieces =>
    let behind := piecesFrom more pieces
    ([], (e, behind.1) :: behind.2)

section

-- what is done to each text between the elements of one mark
variable (finish : List Symbol → List Symbol) (mark : Char)

/-- Pieces as one text. -/
def ofPieces (pieces : Pieces) : List Symbol :=
  finish pieces.1 ++ pieces.2.flatMap fun piece => piece.1 :: finish piece.2

mutual

/-- A text inside of an element, with the given patterns looked for; the first argument bounds the
number of steps. -/
def inside : Nat → List Pattern → Option Symbol → List Symbol → Pieces
  | 0, _, _, line => (line, [])
  | _ + 1, _, _, [] => ([], [])
  | fuel + 1, patterns, before, s :: rest =>
    match elements? fuel patterns before (s :: rest) with
    | some (made, rest) => piecesFrom made (inside fuel patterns (some (.char mark)) rest)
    | none =>
      let pieces := inside fuel patterns (some s) rest
      (s :: pieces.1, pieces.2)

/-- The elements that patterns find at a place, one behind the other: a pattern goes on where the
one before it has stopped. -/
def elements? : Nat → List Pattern → Option Symbol → List Symbol →
    Option (List Symbol × List Symbol)
  | 0, _, _, _ => none
  | _ + 1, [], _, _ => none
  | fuel + 1, pattern :: later, before, line =>
    match pattern before line with
    | none => elements? fuel later before line
    | some found =>
      let (e, rest) := element fuel later found
      match elements? fuel later (some (.char mark)) rest with
      | some (more, rest) => some (e :: more, rest)
      | none => some ([e], rest)

/-- The element of a finding, and what follows it. -/
def element : Nat → List Pattern → Finding → Symbol × List Symbol
  | 0, _, .single tag one rest => (.element tag one, rest)
  | 0, _, .opening outer inner one two rest => (.element outer (.element inner one :: two), rest)
  | 0, _, .closing outer inner one two rest => (.element outer (one ++ [.element inner two]), rest)
  | fuel + 1, later, found =>
    let content := fun line => ofPieces finish (inside fuel later none line)
    match found with
    | .single tag one rest => (.element tag (content one), rest)
    | .opening outer inner one two rest =>
      (.element outer (.element inner (content one) :: content two), rest)
    | .closing outer inner one two rest =>
      (.element outer (content one ++ [.element inner (content two)]), rest)

end

/-- The first pattern that fits, as a rule. -/
def firstOf : List Pattern → Rule
  | [], _, _ => none
  | pattern :: later, before, line =>
    match pattern before line with
    | some found =>
      -- a few steps for each symbol are enough, since every pattern takes symbols away
      let (e, rest) := element finish mark (8 * line.length + 8) later found
      some ([e], rest)
    | none => firstOf later before line

end

/-- Text between underscores. -/
def barRule : Rule := firstOf id '_' barPatterns

/-- Text between stars; underscores inside of it are marks of their own. -/
def starRule : Rule := firstOf barRule.apply '*' starPatterns

/-- The rules in the order of their application. -/
def rules : List Rule := [codeRule, escapeRule, breakRule, tagRule, loneRule, starRule, barRule]

/-- Whether a symbol parts the texts on its two sides. -/
def Symbol.parts : Symbol → Bool
  | .lineBreak | .element _ _ => true
  | _ => false

/-- The pieces of a text that are parted by its elements. -/
def toPieces : List Symbol → Pieces
  | [] => ([], [])
  | s :: rest =>
    let pieces := toPieces rest
    if s.parts then ([], (s, pieces.1) :: pieces.2) else (s :: pieces.1, pieces.2)

mutual

/-- A text with its marks turned into elements; the first argument bounds the depth of elements. -/
def marked : Nat → List Symbol → List Symbol
  | 0, line => line
  | depth + 1, line =>
    (rules.foldl (fun line rule => rule.apply line) line).map fun s =>
      match s with
      | .element tag inside => .element tag (reviewed depth false inside)
      | s => s

/-- The content of an element. The elements in it were found by some of the rules alone, so that
all rules are applied to their texts and to those behind them, and with `again` to the text before
them too. -/
def reviewed : Nat → Bool → List Symbol → List Symbol
  | 0, _, line => line
  | depth + 1, again, line =>
    let pieces := toPieces line
    (if again then marked depth pieces.1 else pieces.1) ++ pieces.2.flatMap fun piece =>
      (match piece.1 with
        | .element tag inside => .element tag (reviewed depth true inside)
        | s => s) :: marked depth piece.2

end

/-- A text with all its marks turned into elements. -/
def inline (cs : List Char) : List Symbol := marked (2 * cs.length + 2) (symbols cs)

end PageBlocks.Markup.Light
