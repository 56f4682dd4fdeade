import PageBlocks.Body.Braces.Reader
import PageBlocks.Body.Braces.Scoping

/-!
# Which brace-tag texts can run

A text has to be well formed, and no loop may bind the name of its own counter. Branches and loops
nest to a limited depth, loops by themselves to a smaller one, and a call gives each named argument
once. The last rule does not hold for a call with an argument that is named by a reserved word,
where the last argument of a name counts.
-/

set_option autoImplicit false

namespace PageBlocks.Body.Braces

mutual

/-- The names that the loops of an item bind. -/
def loopTargets : Item → List String
  | .each name _ items => name :: targets items
  | .branch arms otherwise => armLoopTargets arms ++ bodyLoopTargets otherwise
  | _ => []

/-- The names that the loops of items bind. -/
def bodyLoopTargets : List Item → List String
  | [] => []
  | item :: rest => loopTargets item ++ bodyLoopTargets rest

/-- The names that the loops in the arms of a branch bind. -/
def armLoopTargets : List (Expr × List Item) → List String
  | [] => []
  | (_, items) :: rest => bodyLoopTargets items ++ armLoopTargets rest

end

mutual

/-- How deep loops and branches nest in an item, if a branch counts as given. -/
def itemDepth (branch : Nat) : Item → Nat
  | .each _ _ items => bodyDepth branch items + 1
  | .branch arms otherwise => max (armDepth branch arms) (bodyDepth branch otherwise) + branch
  | _ => 0

/-- How deep loops and branches nest in items. -/
def bodyDepth (branch : Nat) : List Item → Nat
  | [] => 0
  | item :: rest => max (itemDepth branch item) (bodyDepth branch rest)

/-- How deep loops and branches nest in the arms of a branch. -/
def armDepth (branch : Nat) : List (Expr × List Item) → Nat
  | [] => 0
  | (_, items) :: rest => max (bodyDepth branch items) (armDepth branch rest)

end

/-- The words that are no names for arguments everywhere. -/
def reservedWords : List String :=
  ["False", "None", "True", "and", "as", "assert", "async", "await", "break", "class", "continue",
    "def", "del", "elif", "else", "except", "finally", "for", "from", "global", "if", "import",
    "in", "is", "lambda", "nonlocal", "not", "or", "pass", "raise", "return", "try", "while",
    "with", "yield"]

/-- Whether the names of a call's arguments hold one twice although none is reserved. -/
def repeats (names : List String) : Bool :=
  !(names.any reservedWords.contains) && names.eraseDups.length < names.length

mutual

/-- Whether a call in an expression repeats a named argument. -/
def exprRepeats : Expr → Bool
  | .literal _ | .name _ => false
  | .call f arguments named =>
    repeats (named.map (·.1)) || exprRepeats f || listRepeats arguments || argumentsRepeat named
  | .join parts => listRepeats parts
  | .list items => listRepeats items
  | .map entries => entriesRepeat entries

/-- The same for expressions. -/
def listRepeats : List Expr → Bool
  | [] => false
  | e :: rest => exprRepeats e || listRepeats rest

/-- The same for the values of named arguments. -/
def argumentsRepeat : List (String × Expr) → Bool
  | [] => false
  | (_, e) :: rest => exprRepeats e || argumentsRepeat rest

/-- The same for map entries. -/
def entriesRepeat : List (Expr × Expr) → Bool
  | [] => false
  | (k, e) :: rest => exprRepeats k || exprRepeats e || entriesRepeat rest

end

mutual

/-- Whether a call in an item repeats a named argument. -/
def itemRepeats : Item → Bool
  | .text _ | .forget _ => false
  | .emit e | .bind _ e => exprRepeats e
  | .each _ source items => exprRepeats source || bodyRepeats items
  | .branch arms otherwise => armsRepeat arms || bodyRepeats otherwise

/-- The same for items. -/
def bodyRepeats : List Item → Bool
  | [] => false
  | item :: rest => itemRepeats item || bodyRepeats rest

/-- The same for the arms of a branch. -/
def armsRepeat : List (Expr × List Item) → Bool
  | [] => false
  | (condition, items) :: rest => exprRepeats condition || bodyRepeats items || armsRepeat rest

end

/-- The depth to which loops and branches may nest. -/
def depthLimit : Nat := 98

/-- The depth to which loops may nest. -/
def loopLimit : Nat := 20

/-- The first rule that items break, if they break one. -/
def refusal? (items : List Item) : Option HostFault :=
  if (bodyLoopTargets items).contains counterName then some .boundCounter
  else if bodyDepth 1 items > depthLimit then some .deepNesting
  else if bodyDepth 0 items > loopLimit || bodyRepeats items then some .refusedSource
  else none

/-- The body that a text spells, where the body's own name stands for a given value. -/
def read (own : Value) (s : String) : Except Fault (List Item) :=
  match read? s with
  | none => .error (.host .malformedSource)
  | some items =>
    match refusal? items with
    | some cause => .error (.host cause)
    | none => .ok (withFrames own items)

end PageBlocks.Body.Braces
