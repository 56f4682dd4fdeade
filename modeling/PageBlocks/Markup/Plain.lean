import PageBlocks.Markup.Entity
import PageBlocks.Text.Blank

/-!
# Text without markup

What remains of a marked-up text for reading: comments go first, so that tags inside them do not
end them early, then tags, then runs of blanks become single spaces, and last the character
references are resolved.
-/

set_option autoImplicit false

namespace PageBlocks.Markup

open PageBlocks.Text

/-- The text without its first span from an opening word to the first closing word at or after the
place where the opening word starts. None if there is no such span. -/
def withoutSpan? (opening closing cs : List Char) : Option (List Char) :=
  match cut? opening cs with
  | some (before, _) =>
    (cut? closing (cs.drop before.length)).map fun parts => before ++ parts.2
  | none => none

/-- The text after removing the first span as often as there is one, at most `fuel` times. -/
def withoutSpansFrom (opening closing : List Char) : Nat → List Char → List Char
  | 0, cs => cs
  | fuel + 1, cs =>
    match withoutSpan? opening closing cs with
    | some rest => withoutSpansFrom opening closing fuel rest
    | none => cs

/-- The text without any span. Each removal makes the text shorter, so its length bounds them. -/
def withoutSpans (opening closing cs : List Char) : List Char :=
  withoutSpansFrom opening closing cs.length cs

/-- Words with single spaces between them. -/
def spaced : List (List Char) → List Char
  | [] => []
  | [word] => word
  | word :: rest => word ++ ' ' :: spaced rest

/-- A text without comments, tags, superfluous blanks and character references. -/
def plain (cs : List Char) : List Char :=
  let cs := withoutSpans "<!--".toList "-->".toList cs
  let cs := withoutSpans ['<'] ['>'] cs
  Entity.decode (spaced (words cs))

end PageBlocks.Markup
