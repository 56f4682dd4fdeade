import PageBlocks.Fault
import PageBlocks.Markup.Light
import PageBlocks.Markup.Plain
import PageBlocks.Number.Decimal

/-!
# Transforms

The functions on text that markup blocks can be declared with. Three of them are always there;
further ones are registered on top, under names of their own.
-/

set_option autoImplicit false

namespace PageBlocks

/-! ## Escaped markup

The five characters with a meaning in markup, written as character references. Escaping works
character by character, so it commutes with concatenation (`escape_append`). -/

namespace Markup

/-- One character as markup text. -/
def escapeChar (c : Char) : List Char :=
  if c = '&' then "&amp;".toList
  else if c = '<' then "&lt;".toList
  else if c = '>' then "&gt;".toList
  else if c = '\x27' then "&#39;".toList
  else if c = '\x22' then "&#34;".toList
  else [c]

/-- A text as markup text. -/
def escape (cs : List Char) : List Char := cs.flatMap escapeChar

theorem escape_append (cs ds : List Char) : escape (cs ++ ds) = escape cs ++ escape ds := by
  simp [escape]

end Markup

/-! ## Transforms -/

/-- A function on text. -/
inductive Transform where
  /-- Markup characters as character references. -/
  | escape
  /-- No tags, comments and character references. -/
  | plain
  /-- Light markup as tags. -/
  | light
  /-- Brackets around the text. -/
  | bracket
  /-- The text twice. -/
  | twice
  /-- Nothing. -/
  | drop
  /-- The number of characters. -/
  | length
  /-- The text as it is. -/
  | keep
  deriving DecidableEq, Repr

namespace Transform

/-- The text that a transform makes of a text. -/
def apply : Transform → String → String
  | escape, s => String.ofList (Markup.escape s.toList)
  | plain, s => String.ofList (Markup.plain s.toList)
  | light, s => String.ofList (Markup.Light.render s.toList)
  | bracket, s => "[" ++ s ++ "]"
  | twice, s => s ++ s
  | drop, _ => ""
  | length, s => Number.Decimal.text s.toList.length
  | keep, s => s

/-- What a transform makes of any value. Escaping and removing tags work on the printed form, and
so do brackets and keeping; light markup takes texts alone, or bytes for their quoted form. -/
def applyTo : Transform → Value → Except Fault Value
  | t, .text s => .ok (.text (t.apply s))
  | escape, v => .ok (.text (escape.apply v.print))
  | plain, v => .ok (.text (plain.apply v.print))
  | light, .bytes bs =>
    -- of bytes, only the blanks of ASCII count as blank
    .ok (.text (if bs.all (fun b => b = 32 || (9 ≤ b && b ≤ 13)) then ""
      else light.apply (Value.bytes bs).quoted))
  | light, v => .error (Fault.withoutOperation v)
  | bracket, v => .ok (.text (bracket.apply v.print))
  | drop, _ => .ok (.text "")
  | keep, v => .ok (.text (keep.apply v.print))
  | _, _ => .error (.host .type)

/-- The transforms that are always there. -/
def builtIn : Table String Transform := [("escape", escape), ("striptags", plain), ("md", light)]

/-- The transforms that can be registered. -/
def menu : Table String Transform :=
  [("bracket", bracket), ("dup", twice), ("drop", drop), ("length", length)]

/-- The transforms that are there once those of the given names are registered too. -/
def register (names : List String) : Table String Transform :=
  names.foldl (fun t name => match menu.get? name with
    | some transform => t.insert name transform
    | none => t) builtIn

/-- The transform of a name. -/
def find (transforms : Table String Transform) (name : Value) : Except Fault Transform :=
  match name with
  | .text s =>
    match transforms.get? s with
    | some transform => .ok transform
    | none => .error (.value (.unknownTransform name transforms.keys))
  | name =>
    if name.isKey then .error (.value (.unknownTransform name transforms.keys))
    else .error (.host .type)

end Transform

end PageBlocks
