import PageBlocks.Json.Text
import PageBlocks.Value

/-!
# Values written as JSON

Texts, numbers, truth values, the null value, lists, tuples as lists, and maps whose keys are
scalars. A style decides on separators, on the order of map entries, and on what becomes of values
that have no JSON form.
-/

set_option autoImplicit false

namespace PageBlocks.Json

open PageBlocks.Number

/-- The decisions of a written form. -/
structure Style where
  /-- Between items and between entries. -/
  comma : List Char
  /-- Between a key and its value. -/
  colon : List Char
  /-- Whether map entries are written in ascending order of their keys. -/
  sorted : Bool
  /-- Whether a value without a JSON form is written as the string of its quoted form. -/
  lenient : Bool

/-- The style in which the variables of a page become part of its identity. -/
def Style.identity : Style := ⟨[',', ' '], [':', ' '], true, true⟩

/-- The style of the arguments that a deferred tag carries. -/
def Style.payload : Style := ⟨[','], [':'], false, false⟩

/-- How doubles are written. -/
def realLayout : Layout := { nan := "NaN", infinity := "Infinity" }

/-- The text of a scalar other than a text. -/
def scalar? : Value → Option (List Char)
  | .null => some "null".toList
  | .bool b => some (if b then "true" else "false").toList
  | .int n => some (Decimal.ofInt n)
  | .real x => some (Shortest.characters realLayout x)
  | _ => none

/-- The text that stands for a key. -/
def key? : Value → Option (List Char)
  | .text s => some s.toList
  | v => scalar? v

/-- Texts with a separator between them. -/
def separated (comma : List Char) : List (List Char) → List Char
  | [] => []
  | [item] => item
  | item :: rest => item ++ comma ++ separated comma rest

/-- Why a value has no written form. -/
inductive Obstacle where
  /-- A value or a key without a JSON form. -/
  | noForm
  /-- Keys that have to be put in order have none. -/
  | noOrder (cause : Value.NoOrder)

/-- Map entries in the order of a style. -/
def Style.order {α : Type} (style : Style) (entries : List (Value × α)) :
    Except Obstacle (List (Value × α)) :=
  if style.sorted then (Value.sortByKey entries).mapError .noOrder else .ok entries

/-- One entry from its key and the text of its value. An obstacle in the key counts before one in
the value. -/
def Style.entry (style : Style) (entry : Value × Except Obstacle (List Char)) :
    Except Obstacle (List Char) :=
  match key? entry.1 with
  | some k => do return Text.encode k ++ style.colon ++ (← entry.2)
  | none => .error .noForm

mutual

/-- The written form of a value, or the first obstacle to one: keys are put in order before any of
them is written, and each entry is written in its turn. -/
def write (style : Style) : Value → Except Obstacle (List Char)
  | .text s => .ok (Text.encode s.toList)
  | .list items | .tuple items => do
    let texts ← writeItems style items
    return '[' :: separated style.comma texts ++ [']']
  | .map entries => do
    let ordered ← style.order (writeValues style entries)
    let texts ← ordered.mapM style.entry
    return '\x7b' :: separated style.comma texts ++ ['\x7d']
  | v =>
    match scalar? v with
    | some t => .ok t
    | none => if style.lenient then .ok (Text.encode v.quotedChars) else .error .noForm

/-- The written forms of items. -/
def writeItems (style : Style) : List Value → Except Obstacle (List (List Char))
  | [] => .ok []
  | item :: rest => do return (← write style item) :: (← writeItems style rest)

/-- The written forms of the values of entries, or what is in their way, each behind its key. -/
def writeValues (style : Style) :
    List (Value × Value) → List (Value × Except Obstacle (List Char))
  | [] => []
  | (k, v) :: rest => (k, write style v) :: writeValues style rest

end

end PageBlocks.Json
