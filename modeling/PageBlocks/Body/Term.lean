import PageBlocks.Value

/-!
# Bodies

The body of a template as a list of items: text, values to print, bindings, loops and branches.
Two languages are written down as such bodies. They differ in how they treat names that are not
bound and in the scope of what a loop binds, which is recorded as the dialect of a body.
-/

set_option autoImplicit false

namespace PageBlocks.Body

/-- An expression. -/
inductive Expr where
  | literal (value : Value)
  | name (name : String)
  | call (callee : Expr) (arguments : List Expr) (named : List (String × Expr))
  /-- The printed values, one behind the other. -/
  | join (parts : List Expr)
  | list (items : List Expr)
  | map (entries : List (Expr × Expr))
  deriving Inhabited

/-- An item of a body. -/
inductive Item where
  | text (text : String)
  /-- Print a value. -/
  | emit (value : Expr)
  /-- Bind a name. -/
  | bind (name : String) (value : Expr)
  /-- Unbind names. -/
  | forget (names : List String)
  /-- Run items once for every element of a value. -/
  | each (name : String) (source : Expr) (items : List Item)
  /-- Run the items behind the first condition that holds, or else the last ones. -/
  | branch (arms : List (Expr × List Item)) (otherwise : List Item)
  deriving Inhabited

/-- How a body treats names. -/
inductive Dialect where
  /-- An unbound name has the null value, and calling one fails before its arguments are looked at.
  All bindings share one scope. -/
  | script
  /-- An unbound name is missing, and calling what is missing fails after its arguments are looked
  at. Bindings made in a loop end with its round, and each round tells its number. -/
  | braces
  deriving DecidableEq, Repr

/-- What names are bound to while a body runs. -/
abbrev Scope := Table String Value

/-- A body with its dialect. The second language has to be read before it can run, and a text that
is not well formed is only found out then. -/
inductive Source where
  | items (items : List Item)
  | text (text : String)

end PageBlocks.Body
