import PageBlocks.Fault
import PageBlocks.Text.Hex
import PageBlocks.Text.Search

/-!
# Block tokens

A token marks the spot in a block's content where a child block goes. It is the identity of the
child, forty hexadecimal digits, between an opening marker that starts with the control character
STX and the control character ETX. `split` cuts a text at its tokens, `unsplit` puts the parts
together again, and `substitute` replaces tokens in a text.
-/

set_option autoImplicit false

namespace PageBlocks.Token

open PageBlocks.Text

/-- The opening marker. -/
def opening : List Char := '\x02' :: "block:".toList

/-- The closing marker. -/
def closing : Char := '\x03'

/-- The number of digits of an identity. -/
def idLength : Nat := 40

/-- Whether a character sequence has the form of an identity. -/
def isId (cs : List Char) : Bool := cs.length = idLength && cs.all Hex.isDigit

/-- The token of an identity. -/
def ofId (id : List Char) : List Char := opening ++ id ++ [closing]

/-- The identity in the token that a text starts with, and what follows the token. -/
def leading? (cs : List Char) : Option (List Char × List Char) :=
  match after? opening cs with
  | some rest =>
    match rest.drop idLength with
    | c :: rest' =>
      if isId (rest.take idLength) ∧ c = closing then some (rest.take idLength, rest') else none
    | [] => none
  | none => none

theorem length_lt_of_leading? {cs id rest : List Char} (h : leading? cs = some (id, rest)) :
    rest.length < cs.length := by
  unfold leading? at h
  split at h
  · rename_i tail htail
    have hlength := congrArg List.length (eq_append_of_after? htail)
    rw [List.length_append] at hlength
    split at h
    · rename_i c more hdrop
      split at h
      · simp only [Option.some.injEq, Prod.mk.injEq] at h
        obtain ⟨-, rfl⟩ := h
        have : (tail.drop idLength).length = more.length + 1 := by rw [hdrop]; rfl
        rw [List.length_drop] at this
        omega
      · simp at h
    · simp at h
  · simp at h

/-- A text cut at its tokens: the text before the first token, then for each token its identity and
the text up to the next one. -/
def split (cs : List Char) : List Char × List (List Char × List Char) :=
  match h : leading? cs with
  | some (id, rest) =>
    have : rest.length < cs.length := length_lt_of_leading? h
    let (text, more) := split rest
    ([], (id, text) :: more)
  | none =>
    match cs with
    | [] => ([], [])
    | c :: rest =>
      let (text, more) := split rest
      (c :: text, more)
termination_by cs.length

/-- A text with its tokens replaced, in one pass from the left. A token for whose identity nothing
is shown stays. -/
def substitute (shown? : List Char → Option (List Char)) (cs : List Char) : List Char :=
  match h : leading? cs with
  | some (id, rest) =>
    have : rest.length < cs.length := length_lt_of_leading? h
    (shown? id).getD (cs.take (cs.length - rest.length)) ++ substitute shown? rest
  | none =>
    match cs with
    | [] => []
    | c :: rest => c :: substitute shown? rest
termination_by cs.length

/-- The text of a split. -/
def unsplit (parts : List Char × List (List Char × List Char)) : List Char :=
  parts.1 ++ parts.2.flatMap fun part => ofId part.1 ++ part.2

/-- The identities of the tokens in a text, in order. -/
def ids (cs : List Char) : List (List Char) := (split cs).2.map (·.1)

/-- The token of a text that has the form of an identity. -/
def encode (id : String) : Except Fault String :=
  if isId id.toList then .ok (String.ofList (ofId id.toList)) else .error (.value (.blockId id))

/-- The identity in a text that is one token. -/
def decode (token : String) : Except Fault String :=
  match leading? token.toList with
  | some (id, []) => .ok (String.ofList id)
  | _ => .error (.value (.placeholder token))

/-- The identities of the tokens in a text. -/
def findIds (text : String) : List String := (ids text.toList).map String.ofList

end PageBlocks.Token
