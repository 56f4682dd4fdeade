import PageBlocks.Body.Term
import PageBlocks.Fault

/-!
# Running bodies

A body runs against a `Handler`, which says what calling a value does and where the output goes.
Running is by recursion on the body alone: a loop is as long as the value that it runs over, and
whatever a call may start is the handler's business.
-/

set_option autoImplicit false

namespace PageBlocks.Body

open PageBlocks.Number

/-- What a body needs from the page that it belongs to. -/
structure Handler (m : Type → Type) where
  dialect : Dialect
  /-- Call a value with arguments by position and by name. -/
  call : Value → List Value → List (String × Value) → m Value
  /-- Take a piece of output. -/
  write : String → m Unit

/-- The value of an unbound name. -/
def Dialect.unbound : Dialect → Value
  | script => .null
  | braces => .missing

/-- The text of a value inside a joined text. -/
def Dialect.joinedText : Dialect → Value → String
  | script, .null => ""
  | _, v => v.print

/-- The text of a value that is printed. The null value prints nothing. -/
def outputText : Value → String
  | .null => ""
  | v => v.print

/-- Whether calling an expression fails at once. -/
def Dialect.refusesCallee (dialect : Dialect) (scope : Scope) : Expr → Bool
  | .name s => dialect = .script && !scope.has s
  | _ => false

/-- The name by which a round of a loop knows which one it is. -/
def counterName : String := "loop"

/-- What stands for a round of a loop: its number and the number of rounds. -/
def counter (round rounds : Nat) : Value :=
  .object ("LoopContext " ++ Decimal.text round ++ "/" ++ Decimal.text rounds)

section

variable {m : Type → Type} [Monad m] [MonadExceptOf Fault m]

/-- A map from its entries in order. -/
def mapOf (entries : List (Value × Value)) : m Value :=
  if entries.all fun entry => entry.1.isKey then return .map (Table.ofBindings entries)
  else throw (.host .type)

mutual

/-- The value of an expression. -/
def Expr.eval (h : Handler m) (scope : Scope) : Expr → m Value
  | .literal v => return v
  | .name s => return (scope.get? s).getD h.dialect.unbound
  | .call f arguments named => do
    if h.dialect.refusesCallee scope f then throw (.host .unboundName)
    let callee ← f.eval h scope
    let arguments ← evalAll h scope arguments
    let named ← evalNamed h scope named
    match callee with
    | .missing => throw (.host .undefinedName)
    | callee => h.call callee arguments named
  | .join parts => do
    let values ← evalAll h scope parts
    return .text (String.join (values.map h.dialect.joinedText))
  | .list items => return .list (← evalAll h scope items)
  | .map entries => do mapOf (← evalEntries h scope entries)

/-- The values of expressions, in order. -/
def evalAll (h : Handler m) (scope : Scope) : List Expr → m (List Value)
  | [] => return []
  | e :: rest => do
    let v ← e.eval h scope
    return v :: (← evalAll h scope rest)

/-- The values of named arguments, in order. -/
def evalNamed (h : Handler m) (scope : Scope) : List (String × Expr) → m (List (String × Value))
  | [] => return []
  | (name, e) :: rest => do
    let v ← e.eval h scope
    return (name, v) :: (← evalNamed h scope rest)

/-- The keys and values of map entries, in order. -/
def evalEntries (h : Handler m) (scope : Scope) : List (Expr × Expr) → m (List (Value × Value))
  | [] => return []
  | (k, e) :: rest => do
    let key ← k.eval h scope
    let v ← e.eval h scope
    return (key, v) :: (← evalEntries h scope rest)

end

/-- The scope after a loop: run something for each element, with a name bound to it. -/
def loop (dialect : Dialect) (name : String) (run : Scope → m Scope) (scope : Scope)
    (elements : List Value) : m Scope :=
  match dialect with
  | .script => elements.foldlM (fun inner v => run (inner.insert name v)) scope
  | .braces => do
    -- every round starts from the scope before the loop
    for (v, i) in elements.zipIdx do
      let _ ← run ((scope.insert counterName (counter (i + 1) elements.length)).insert name v)
    return scope

mutual

/-- Run an item; the result is the scope for what follows. -/
def Item.run (h : Handler m) (scope : Scope) : Item → m Scope
  | .text s => do
    h.write s
    return scope
  | .emit e => do
    let v ← e.eval h scope
    h.write (outputText v)
    return scope
  | .bind name e => do
    let v ← e.eval h scope
    return scope.insert name v
  | .forget names => return names.foldl Table.erase scope
  | .each name source items => do
    let v ← source.eval h scope
    match v.elements? with
    | some elements => loop h.dialect name (fun inner => runAll h inner items) scope elements
    | none => throw (.host .type)
  | .branch arms otherwise => runArms h scope (runAll h scope otherwise) arms

/-- Run items in order. -/
def runAll (h : Handler m) (scope : Scope) : List Item → m Scope
  | [] => return scope
  | item :: rest => do
    let scope ← item.run h scope
    runAll h scope rest

/-- Run the items behind the first condition that holds, or else what is given for that case. -/
def runArms (h : Handler m) (scope : Scope) (otherwise : m Scope) :
    List (Expr × List Item) → m Scope
  | [] => otherwise
  | (condition, items) :: rest => do
    let v ← condition.eval h scope
    if v.isTrue then runAll h scope items else runArms h scope otherwise rest

end

end

end PageBlocks.Body
