import PageBlocks.Markup.Light.Emphasis
import PageBlocks.Text.Search

/-!
# Light markup

A small plain-text markup, turned into tags. Empty lines separate blocks: paragraphs, headings
behind number signs or above a ruled line, rules, and code indented by four spaces. Running text
has emphasis, code and line ends of its own.
-/

set_option autoImplicit false

namespace PageBlocks.Markup.Light

open PageBlocks.Text

/-! ## Lines -/

/-- The width of an indentation step. -/
def indent : Nat := 4

/-- A text with all line ends written as line feeds, and without the two control characters that no
text may hold. -/
def cleaned : List Char → List Char
  | [] => []
  | '\r' :: '\n' :: rest => '\n' :: cleaned rest
  | c :: rest =>
    if c = '\r' then '\n' :: cleaned rest
    else if c = '\x02' ∨ c = '\x03' then cleaned rest
    else c :: cleaned rest

/-- A text with tabulators filled up to the next step; `column` counts the characters of the line
so far. -/
def untabbed (column : Nat) : List Char → List Char
  | [] => []
  | c :: rest =>
    if c = '\t' then
      let width := indent - column % indent
      List.replicate width ' ' ++ untabbed (column + width) rest
    else c :: untabbed (if c = '\n' then 0 else column + 1) rest

/-- The lines of a text. -/
def lines : List Char → List (List Char) := splitOn '\n'

/-- Lines with line feeds between them. -/
def joined : List (List Char) → List Char := joinWith '\n'

/-- Lines with those emptied that hold spaces alone, except for the first one. -/
def withoutSpaceLines : List (List Char) → List (List Char)
  | [] => []
  | first :: rest => first :: rest.map fun line => if line.all (· = ' ') then [] else line

/-- The parts of a text between pairs of line feeds; `part` is the part being read, last character
first. -/
def partsFrom (part : List Char) : List Char → List (List Char)
  | [] => [part.reverse]
  | '\n' :: '\n' :: rest => part.reverse :: partsFrom [] rest
  | c :: rest => partsFrom (c :: part) rest

/-- The parts of a text between empty lines. -/
def parts (cs : List Char) : List (List Char) :=
  partsFrom [] (joined (withoutSpaceLines (lines (untabbed 0 (cleaned cs ++ ['\n', '\n'])))))

/-! ## Blocks -/

/-- A block of a text. -/
inductive Block where
  | paragraph (text : List Char)
  | heading (level : Nat) (text : List Char)
  | code (text : List Char)
  | rule

/-- A part that is still to be read, or a block that comes in its place. -/
inductive Part where
  | source (cs : List Char)
  | block (b : Block)

/-- A part, unless it is empty. -/
def Part.ofSource (cs : List Char) : List Part := if cs.isEmpty then [] else [.source cs]

/-- The rest behind a heading that ends here: number signs and the end of the line. -/
def headingEnd? (cs : List Char) : Option (List Char) :=
  match cs.dropWhile (· = '#') with
  | [] => some []
  | '\n' :: rest => some rest
  | _ => none

/-- The text of a heading and what follows its line. A backslash takes the next character along, and
none may stand at the end of the line. -/
def headingText? : List Char → Option (List Char × List Char)
  | [] => some ([], [])
  | c :: rest =>
    match headingEnd? (c :: rest) with
    | some rest => some ([], rest)
    | none =>
      if c = '\x5c' then
        match rest with
        | d :: rest =>
          if d = '\n' then none
          else (headingText? rest).map fun found => (c :: d :: found.1, found.2)
        | [] => none
      else (headingText? rest).map fun found => (c :: found.1, found.2)

/-- The heading that a text starts with, and what follows: one to six number signs and a text. -/
def heading? (cs : List Char) : Option (Block × List Char) :=
  let level := min 6 (cs.takeWhile (· = '#')).length
  if level = 0 then none
  else (headingText? (cs.drop level)).map fun found =>
    (.heading level (trim found.1), found.2)

/-- The first heading of a text, with the text before and behind it; `atStart` says whether a line
starts here. -/
def headingWithin? (atStart : Bool) : List Char → Option (List Char × Block × List Char)
  | [] => none
  | c :: rest =>
    match if atStart then heading? (c :: rest) else none with
    | some (b, behind) => some ([], b, behind)
    | none => (headingWithin? (c = '\n') rest).map fun found =>
      (c :: found.1, found.2.1, found.2.2)

/-- A text without the line feed at its end. -/
def withoutLineEnd (cs : List Char) : List Char :=
  if cs.getLast? = some '\n' then cs.dropLast else cs

/-- The heading of a text whose second line is ruled with equals signs or dashes, and what
follows. -/
def ruledHeading? (cs : List Char) : Option (Block × List Char) :=
  match lines cs with
  | first :: line :: rest =>
    let dashes := line.takeWhile fun c => c = '=' || c = '-'
    if !dashes.isEmpty && (line.drop dashes.length).all (· = ' ') then
      some (.heading (if dashes.head? = some '=' then 1 else 2) (trim first), joined rest)
    else none
  | _ => none

/-- Whether a line is a rule: three equal marks or more, with at most three spaces before and two
spaces between them. -/
def isRule (line : List Char) : Bool :=
  let body := line.dropWhile (· = ' ')
  let trimmed := (body.reverse.dropWhile (· = ' ')).reverse
  line.length - body.length ≤ 3 && ['-', '_', '*'].any fun mark =>
    trimmed.all (fun c => c = mark || c = ' ') && !occurs [' ', ' ', ' '] trimmed
      && 3 ≤ (trimmed.filter (· = mark)).length

/-- The lines before and behind the first rule. -/
def ruleWithin? : List (List Char) → Option (List (List Char) × List (List Char))
  | [] => none
  | line :: rest =>
    if isRule line then some ([], rest)
    else (ruleWithin? rest).map fun found => (line :: found.1, found.2)

/-- The lines of a text that are indented, one step taken away, up to the first other line, and the
text from there on. Blank lines count as indented. -/
def indented : List (List Char) → List (List Char) × List (List Char)
  | [] => ([], [])
  | line :: rest =>
    if line.take indent = List.replicate indent ' ' then
      let found := indented rest
      (line.drop indent :: found.1, found.2)
    else if (trim line).isEmpty then
      let found := indented rest
      ([] :: found.1, found.2)
    else ([], line :: rest)

/-- A text without the blanks at its end. -/
def trimEnd (cs : List Char) : List Char := (cs.reverse.dropWhile isBlank).reverse

/-- Blocks, last one first, with more text for the last one if that is code. -/
def continueCode (text : List Char) : List Block → List Block
  | .code before :: blocks => .code (before ++ text) :: blocks
  | blocks => blocks

/-- Blocks, last one first, with a piece of code behind them. Pieces that follow each other are
one. -/
def addCode (text : List Char) : List Block → List Block
  | .code before :: blocks => .code (before ++ '\n' :: text ++ ['\n']) :: blocks
  | blocks => .code (text ++ ['\n']) :: blocks

/-- The blocks of a list of parts, in order; `done` are those so far, last one first, and `fuel`
bounds the number of steps. -/
def blocksFrom : Nat → List Block → List Part → List Block
  | 0, done, _ => done.reverse
  | _ + 1, done, [] => done.reverse
  | fuel + 1, done, .block b :: more => blocksFrom fuel (b :: done) more
  | fuel + 1, done, .source cs :: more =>
    match cs with
    | [] => blocksFrom fuel (continueCode ['\n', '\n'] done) more
    | '\n' :: rest => blocksFrom fuel (continueCode ['\n'] done) (Part.ofSource rest ++ more)
    | cs =>
      if cs.take indent = List.replicate indent ' ' then
        let (code, rest) := indented (lines cs)
        blocksFrom fuel (addCode (trimEnd (joined code)) done)
          (Part.ofSource (joined rest) ++ more)
      else
        match headingWithin? true cs with
        | some (before, b, behind) =>
          blocksFrom fuel done
            (Part.ofSource (withoutLineEnd before) ++ .block b :: Part.ofSource behind ++ more)
        | none =>
          match ruledHeading? cs with
          | some (b, rest) => blocksFrom fuel (b :: done) (Part.ofSource rest ++ more)
          | none =>
            match ruleWithin? (lines cs) with
            | some (before, behind) =>
              let before := ((joined before).reverse.dropWhile (· = '\n')).reverse
              let behind := (joined behind).dropWhile (· = '\n')
              blocksFrom fuel done
                (Part.ofSource before ++ .block .rule :: Part.ofSource behind ++ more)
            | none =>
              let text := cs.dropWhile isBlank
              blocksFrom fuel (if text.isEmpty then done else .paragraph text :: done) more

/-- The blocks of a text. -/
def blocks (cs : List Char) : List Block :=
  let parts := parts cs
  blocksFrom (4 * (joined parts).length + 4 * parts.length + 4) [] (parts.map .source)

/-- A block as tagged text. -/
def Block.render : Block → List Char
  | paragraph text => tagged "p" (write (inline text))
  | heading level text => tagged ("h" ++ Number.Decimal.text level) (write (inline text))
  | code text => tagged "pre" (tagged "code" ((trimEnd text).flatMap guarded ++ ['\n']))
  | rule => "<hr />".toList

/-- A text in light markup as tagged text. -/
def render (cs : List Char) : List Char :=
  if cs.all isBlank then [] else joined ((blocks cs).map Block.render)

end PageBlocks.Markup.Light
