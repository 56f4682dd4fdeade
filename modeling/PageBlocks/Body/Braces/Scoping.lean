import PageBlocks.Body.Evaluation

/-!
# Scopes of brace-tag bodies

A body, and each round of a loop in it, is a frame with names of its own. A name that a frame binds
before it mentions it otherwise belongs to that frame, and it is unbound up to there, whatever it
stands for outside; frames further inside, which mention it earlier, find it unbound too. What is
bound inside of a branch alone is no reason for that, and neither is a name that an enclosing frame
mentions anywhere. `withFrames` makes each frame start by forgetting the names of its own.
-/

set_option autoImplicit false

namespace PageBlocks.Body.Braces

mutual

/-- The names in an expression. -/
def exprNames : Expr → List String
  | .literal _ => []
  | .name s => [s]
  | .call f arguments named => exprNames f ++ listNames arguments ++ argumentNames named
  | .join parts => listNames parts
  | .list items => listNames items
  | .map entries => entryNames entries

/-- The names in expressions. -/
def listNames : List Expr → List String
  | [] => []
  | e :: rest => exprNames e ++ listNames rest

/-- The names in the values of named arguments. -/
def argumentNames : List (String × Expr) → List String
  | [] => []
  | (_, e) :: rest => exprNames e ++ argumentNames rest

/-- The names in map entries. -/
def entryNames : List (Expr × Expr) → List String
  | [] => []
  | (k, e) :: rest => exprNames k ++ exprNames e ++ entryNames rest

end

mutual

/-- The names that an item mentions in the frame that it stands in. -/
def itemNames : Item → List String
  | .text _ => []
  | .emit e => exprNames e
  | .bind name e => name :: exprNames e
  | .forget names => names
  | .each _ source _ => exprNames source
  | .branch arms otherwise => armNames arms ++ bodyNames otherwise

/-- The names that items mention in the frame that they stand in. -/
def bodyNames : List Item → List String
  | [] => []
  | item :: rest => itemNames item ++ bodyNames rest

/-- The names that the arms of a branch mention. -/
def armNames : List (Expr × List Item) → List String
  | [] => []
  | (condition, items) :: rest => exprNames condition ++ bodyNames items ++ armNames rest

end

mutual

/-- The names in an item at any depth in the order in which they stand there, each with whether it
is bound. A bound name stands before what it is bound to. -/
def itemUses : Item → List (String × Bool)
  | .text _ | .forget _ => []
  | .emit e => (exprNames e).map (·, false)
  | .bind name e => (name, true) :: (exprNames e).map (·, false)
  | .each name source items => (name, true) :: (exprNames source).map (·, false) ++ bodyUses items
  | .branch arms otherwise => armUses arms ++ bodyUses otherwise

/-- The names in items, in order. -/
def bodyUses : List Item → List (String × Bool)
  | [] => []
  | item :: rest => itemUses item ++ bodyUses rest

/-- The names in the arms of a branch, in order. -/
def armUses : List (Expr × List Item) → List (String × Bool)
  | [] => []
  | (condition, items) :: rest =>
    (exprNames condition).map (·, false) ++ bodyUses items ++ armUses rest

end

/-- The names that items bind at any depth. -/
def targets (items : List Item) : List String := ((bodyUses items).filter (·.2)).map (·.1)

/-- The name by which a body knows itself. -/
def ownName : String := "self"

/-- Whether a body means itself by that name, which it does unless it binds the name first. -/
def meansItself (items : List Item) : Bool :=
  match (bodyUses items).find? (·.1 = ownName) with
  | some (_, bound) => !bound
  | none => false

/-- The names of a frame's own: those that its items bind before they mention them otherwise, apart
from those that are known already. -/
def ownNames (known : List String) : List Item → List String
  | [] => []
  | .bind name e :: rest =>
    let known := exprNames e ++ known
    if known.contains name then ownNames known rest
    else name :: ownNames (name :: known) rest
  | item :: rest => ownNames (itemNames item ++ known) rest

mutual

/-- An item with the frames inside of it; `outer` are the names that the enclosing frames
mention. -/
def framedItem (outer : List String) : Item → Item
  | .each name source items =>
    let known := name :: counterName :: outer
    .each name source
      (.forget (ownNames known items) :: framedItems (bodyNames items ++ known) items)
  | .branch arms otherwise => .branch (framedArms outer arms) (framedItems outer otherwise)
  | item => item

/-- Items with the frames inside of them. -/
def framedItems (outer : List String) : List Item → List Item
  | [] => []
  | item :: rest => framedItem outer item :: framedItems outer rest

/-- The arms of a branch with the frames inside of them. -/
def framedArms (outer : List String) : List (Expr × List Item) → List (Expr × List Item)
  | [] => []
  | (condition, items) :: rest => (condition, framedItems outer items) :: framedArms outer rest

end

/-- A body with its frames, where its own name stands for a given value. -/
def withFrames (own : Value) (items : List Item) : List Item :=
  if meansItself items then
    .bind ownName (.literal own) :: .forget (ownNames [ownName] items)
      :: framedItems (ownName :: bodyNames items) items
  else .forget (ownNames [] items) :: framedItems (bodyNames items) items

end PageBlocks.Body.Braces
