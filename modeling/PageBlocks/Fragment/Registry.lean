import PageBlocks.Fragment.Tag
import PageBlocks.Time.Format

/-!
# Fragment kinds

What a tag may name: the closed list of registered kinds, each with a computation of its own. How a
text is resolved does not depend on what the kinds are and how they are called (`resolveBy`). The
computations of the kinds here reach outside through a `Surroundings` alone: the clock, counters,
and addresses that can be fetched.
-/

set_option autoImplicit false

namespace PageBlocks.Fragment

open PageBlocks.Time

/-- What the computation of a fragment can reach. -/
structure Surroundings (m : Type → Type) where
  now : m Instant
  /-- The next number of a counter. -/
  count : Nat → m Nat
  /-- The text behind an address. -/
  fetch : Value → m String

/-- A kind of fragment. -/
inductive Kind where
  /-- A variable of the request, or a default. -/
  | binding
  /-- The time in a format. -/
  | clock
  /-- The text behind an address. -/
  | fetch
  /-- Always the same value. -/
  | constant (value : Value)
  /-- Nothing. -/
  | nothing
  /-- The printed arguments, joined. -/
  | joined
  /-- The next number of a counter. -/
  | counter (number : Nat)
  /-- The list of the arguments. -/
  | arguments
  /-- A greeting. -/
  | greeting
  /-- All variables of the request. -/
  | vars
  /-- A computation that fails. -/
  | failing

/-- The registered kinds by name, in the order of registration. -/
abbrev Registry := Table String Kind

namespace Registry

/-- The kinds that are always there. -/
def builtIn : Registry := [("var", .binding), ("now", .clock)]

/-- The kind of a name, which may be any value that can be a key. -/
def find? (registry : Registry) (name : Value) : Except Fault (Option Kind) :=
  match name with
  | .text s => .ok (registry.get? s)
  | name => if name.isKey then .ok none else .error (.host .type)

/-- The fault of an unknown kind. -/
def unknown {κ : Type} (registry : Table String κ) (name : Value) : Fault :=
  .fragment (.unknown name registry.keys)

/-- The tag of a registered kind with arguments. -/
def encode (registry : Registry) (kind : Value) (arguments : List Value) : Except Fault String := do
  match ← registry.find? kind with
  | none => throw (unknown registry kind)
  | some _ =>
    match payload? kind arguments with
    | some payload => return String.ofList (tagOf payload)
    | none => throw (.fragment (.unserialisable kind))

end Registry

/-- The text that stands for the value of a fragment. A fragment without a value has no text. -/
def shown : Value → String
  | .null => ""
  | value => value.print

section Calling

variable {κ : Type} {m : Type → Type} [Monad m] [MonadExceptOf Fault m]

/-- The text of the fragment that a payload asks for, where `call` calls a kind with the variables
of the request and the arguments in the payload. -/
def invokeBy (registry : Table String κ) (call : κ → Bindings → List Value → m Value)
    (request : Bindings) (payload : List Char) : m String := do
  match decode payload with
  | .error fault => throw fault
  | .ok (name, arguments) =>
    match registry.get? name with
    | none => throw (Registry.unknown registry (.text name))
    | some kind => return shown (← call kind request arguments)

/-- A text with its tags replaced by the fragments that they ask for. -/
def resolveBy (registry : Table String κ) (call : κ → Bindings → List Value → m Value)
    (request : Bindings) (text : String) : m String :=
  replaceTags (invokeBy registry call request) text

end Calling

/-- The format of the time if none is given. -/
def timeFormat : String := "%Y-%m-%d %H:%M:%S"

/-- A fault of wrong arguments. -/
def wrongArguments : Fault := .host .type

/-- The entries of variables as text, in the order of their names. -/
def variablesText (vars : Bindings) : Except Fault String := do
  let sorted ← Fault.ofOrder (Value.sortByKey vars)
  return ",".intercalate (sorted.map fun entry => entry.1.print ++ "=" ++ entry.2.print)

section Computation

variable {m : Type → Type} [Monad m] [MonadExceptOf Fault m]

/-- The value of a computation that takes no arguments. -/
def alone (arguments : List Value) (value : m Value) : m Value :=
  if arguments.isEmpty then value else throw wrongArguments

/-- A variable of the request by its name, or a default. -/
def variableOr (vars : Bindings) (name default : Value) : m Value :=
  if name.isKey then return .text ((vars.get? name).getD default).print
  else throw wrongArguments

/-- The time in a format. -/
def timeIn (around : Surroundings m) (format : String) : m Value := do
  if format.toList.contains '\x00' then throw (.value .nullInFormat)
  else return .text (String.ofList (Format.write format.toList (← around.now)))

/-- The value that a fragment computes. -/
def Kind.compute (around : Surroundings m) (request : Bindings) (arguments : List Value) :
    Kind → m Value
  | binding =>
    match arguments with
    | [name] => variableOr request name (.text "")
    | [name, default] => variableOr request name default
    | _ => throw wrongArguments
  | clock =>
    match arguments with
    | [] => timeIn around timeFormat
    | [.text format] => timeIn around format
    | _ => throw wrongArguments
  | fetch =>
    match arguments with
    | [url] => Value.text <$> around.fetch url
    | _ => throw wrongArguments
  | constant value => alone arguments (return value)
  | nothing => alone arguments (return .null)
  | joined => return .text (String.join (arguments.map Value.print))
  | counter number => alone arguments do return .int (← around.count number)
  | Kind.arguments => return .list arguments
  | greeting =>
    match arguments with
    | [name] => return .text ("Hello " ++ name.print ++ "!")
    | [name, mark] => return .text ("Hello " ++ name.print ++ mark.print)
    | _ => throw wrongArguments
  | vars =>
    match variablesText request with
    | .ok text => return .text text
    | .error fault => throw fault
  | failing => throw (.value .fragmentFailed)

/-- The text of the fragment that a payload asks for. -/
def Registry.invoke (registry : Registry) (around : Surroundings m) (request : Bindings)
    (payload : List Char) : m String :=
  invokeBy registry (fun kind request arguments => kind.compute around request arguments) request
    payload

/-- A text with its tags replaced by the fragments that they ask for. -/
def Registry.resolve (registry : Registry) (around : Surroundings m) (request : Bindings)
    (text : String) : m String :=
  resolveBy registry (fun kind request arguments => kind.compute around request arguments) request
    text

end Computation

end PageBlocks.Fragment
