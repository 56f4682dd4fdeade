import PageBlocks.Fault
import PageBlocks.Json.Reader
import PageBlocks.Json.Writer
import PageBlocks.Text.Base64
import PageBlocks.Text.Search

/-!
# Fragment tags

A tag stands for a fragment of output that is computed anew each time a text is handed out. It
names the kind of the fragment and carries arguments, as the JSON text of a list of the two, in
base 64 between an opening marker and the control character ETX. `split` cuts a text at its tags in
a single pass from the left; an opening marker that nothing closes stays in the text.
-/

set_option autoImplicit false

namespace PageBlocks.Fragment

open PageBlocks.Text

/-- The opening marker. -/
def opening : List Char := '\x02' :: "defer:".toList

/-- The closing marker. -/
def closing : List Char := ['\x03']

/-- The tag around a payload. -/
def tagOf (payload : List Char) : List Char := opening ++ payload ++ closing

/-- Whether a text holds an opening marker. -/
def isMarked (text : String) : Bool := occurs opening text.toList

/-- The payload of a kind and its arguments, or none if an argument has no JSON form. -/
def payload? (kind : Value) (arguments : List Value) : Option (List Char) :=
  (Json.write Json.Style.payload (.list [kind, .list arguments])).toOption.map fun written =>
    Base64.encode (Utf8.encode written)

/-- The two items of a value of two items. Lists have them, and so have texts of two characters
and maps of two entries. -/
def pair? : Value → Option (Value × Value)
  | .list [a, b] => some (a, b)
  | .map [a, b] => some (a.1, b.1)
  | .text s =>
    match s.toList with
    | [a, b] => some (.text (String.ofList [a]), .text (String.ofList [b]))
    | _ => none
  | _ => none

/-- The kind and the arguments of a payload. -/
def decode? (payload : List Char) : Option (String × List Value) := do
  let bytes ← Base64.decode payload
  let written ← Utf8.decode bytes
  match ← pair? (← Json.read? written) with
  | (.text kind, .list arguments) => some (kind, arguments)
  | _ => none

/-- The kind and the arguments of a payload. -/
def decode (payload : List Char) : Except Fault (String × List Value) :=
  match decode? payload with
  | some found => .ok found
  | none => .error (.fragment (.badTag (String.ofList payload)))

/-- The first tag of a text: what stands before it, its payload, and what stands behind it. -/
def first? (cs : List Char) : Option (List Char × List Char × List Char) := do
  let (before, rest) ← cut? opening cs
  let (payload, behind) ← cut? closing rest
  return (before, payload, behind)

theorem eq_append_of_first? {cs before payload behind : List Char}
    (h : first? cs = some (before, payload, behind)) :
    cs = before ++ tagOf payload ++ behind := by
  simp only [first?, Option.bind_eq_bind, Option.bind_eq_some_iff, Prod.exists, Option.pure_def,
    Option.some.injEq, Prod.mk.injEq] at h
  obtain ⟨_, rest, hopen, _, _, hclose, rfl, rfl, rfl⟩ := h
  rw [eq_append_of_cut? hopen, eq_append_of_cut? hclose]
  simp [tagOf]

/-- A text cut at its tags: the text before the first tag, then for each tag its payload and the
text up to the next one. -/
def split (cs : List Char) : List Char × List (List Char × List Char) :=
  match h : first? cs with
  | some (before, payload, behind) =>
    have : behind.length < cs.length := by
      rw [eq_append_of_first? h]
      simp only [tagOf, opening, List.length_append, List.length_cons]
      omega
    let (text, more) := split behind
    (before, (payload, text) :: more)
  | none => (cs, [])
termination_by cs.length

/-- The text of a split. -/
def unsplit (parts : List Char × List (List Char × List Char)) : List Char :=
  parts.1 ++ parts.2.flatMap fun part => tagOf part.1 ++ part.2

/-- A text with each tag replaced by what a function makes of its payload, from left to right. -/
def replaceTags {m : Type → Type} [Monad m] (f : List Char → m String) (text : String) :
    m String := do
  let parts := split text.toList
  parts.2.foldlM (fun done part => do
    let shown ← f part.1
    return done ++ shown ++ String.ofList part.2) (String.ofList parts.1)

end PageBlocks.Fragment
