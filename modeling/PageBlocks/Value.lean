import PageBlocks.CacheMode
import PageBlocks.Number.Shortest
import PageBlocks.Sorting
import PageBlocks.Table
import PageBlocks.Text.Quoted
import PageBlocks.Text.Utf8

/-!
# Values

What template bodies compute with: the variables of a page, the arguments of directives and
fragments, and the names of blocks. A value knows its plain text, its quoted text, whether it is
equal to or smaller than another one, whether it can serve as a key, and what it offers to a loop.
-/

set_option autoImplicit false

namespace PageBlocks

open PageBlocks.Number

/-- The functions that belong to a body's language and to no page. -/
inductive BuiltIn where
  /-- Whole numbers in equal steps. -/
  | range
  /-- A map from another one, from pairs, or from named arguments. -/
  | mapping
  deriving DecidableEq

/-- The name of a function. -/
def BuiltIn.name : BuiltIn → String
  | range => "range"
  | mapping => "dict"

/-- A value of a template body. Three kinds of values can be called: a directive bound to the page
whose body names it, an inserter, which includes one named template in its page, and the functions
of the language. -/
inductive Value where
  | null
  | bool (b : Bool)
  | int (n : Int)
  | real (x : Binary64)
  | text (s : String)
  | bytes (bs : Text.Bytes)
  | list (items : List Value)
  | tuple (items : List Value)
  | map (entries : List (Value × Value))
  /-- A host object that is known by its name alone. -/
  | object (name : String)
  | mode (m : CacheMode)
  /-- What an unbound name stands for in a body that tolerates it. -/
  | missing
  | directive (page : Nat) (name : String)
  | inserter (page : Nat) (template : Value)
  | builtIn (f : BuiltIn)
  /-- The whole numbers from a start up to a stop, which is no part, in steps. -/
  | range (start stop step : Int)
  deriving Inhabited

namespace Value

/-- The number of steps of a range. -/
def rangeLength (start stop step : Int) : Nat :=
  if step < 0 then Int.toNat ((start - stop - step - 1) / -step)
  else Int.toNat ((stop - start + step - 1) / step)

/-- The numbers of a range. -/
def rangeItems (start stop step : Int) : List Int :=
  (List.range (rangeLength start stop step)).map fun (i : Nat) => start + step * i

/-! ## Printed forms -/

/-- How doubles print. -/
def realLayout : Layout := { nan := "nan", infinity := "inf" }

/-- Item texts with a comma and a space between them. -/
def commaSeparated : List (List Char) → List Char
  | [] => []
  | [item] => item
  | item :: rest => item ++ ',' :: ' ' :: commaSeparated rest

mutual

/-- The quoted form: the one in which a value appears inside other values and in messages. -/
def quotedChars : Value → List Char
  | null => "None".toList
  | bool b => (if b then "True" else "False").toList
  | int n => Decimal.ofInt n
  | real x => Shortest.characters realLayout x
  | text s => Text.Quoted.characters s.toList
  | bytes bs => Text.Quoted.bytes bs
  | list items => '[' :: commaSeparated (quotedItems items) ++ [']']
  | tuple [] => ['(', ')']
  | tuple [item] => '(' :: quotedChars item ++ [',', ')']
  | tuple items => '(' :: commaSeparated (quotedItems items) ++ [')']
  | map entries => '\x7b' :: commaSeparated (quotedEntries entries) ++ ['\x7d']
  | object name => '<' :: name.toList ++ ['>']
  | mode m =>
    "<CacheMode.".toList ++ m.label.toList ++ ": ".toList ++ Text.Quoted.characters m.name.toList
      ++ ['>']
  | missing => "Undefined".toList
  | directive _ _ => "<function>".toList
  | inserter _ _ => "<function>".toList
  | builtIn f => "<class '".toList ++ f.name.toList ++ "'>".toList
  | range start stop step =>
    "range(".toList ++ Decimal.ofInt start ++ ',' :: ' ' :: Decimal.ofInt stop
      ++ (if step = 1 then [] else ',' :: ' ' :: Decimal.ofInt step) ++ [')']

/-- The quoted forms of items. -/
def quotedItems : List Value → List (List Char)
  | [] => []
  | item :: rest => quotedChars item :: quotedItems rest

/-- The quoted forms of map entries. -/
def quotedEntries : List (Value × Value) → List (List Char)
  | [] => []
  | (key, value) :: rest =>
    (quotedChars key ++ ':' :: ' ' :: quotedChars value) :: quotedEntries rest

end

/-- The quoted form as a text. -/
def quoted (v : Value) : String := String.ofList (quotedChars v)

/-- The plain form: what a body prints for a value. -/
def print : Value → String
  | text s => s
  | mode m => "CacheMode." ++ m.label
  | missing => ""
  | v => v.quoted

/-! ## Equality and order -/

/-- The number that a value is; truth values count as one and zero. -/
def number? : Value → Option Binary64
  | bool b => some (Binary64.exactInt (if b then 1 else 0))
  | int n => some (Binary64.exactInt n)
  | real x => some x
  | _ => none

mutual

/-- Equality across the kinds of numbers and inside collections; maps are equal if they bind equal
keys to equal values in any order. -/
def same : Value → Value → Bool
  | null, null => true
  | text s, text t => s == t
  | bytes a, bytes b => a == b
  | list xs, list ys => sameItems xs ys
  | tuple xs, tuple ys => sameItems xs ys
  | map xs, map ys => xs.length == ys.length && sameEntries xs ys
  | object a, object b => a == b
  | mode a, mode b => a == b
  | missing, missing => true
  | directive p d, directive q e => p == q && d == e
  | inserter p a, inserter q b => p == q && same a b
  | builtIn f, builtIn g => f == g
  | range a b s, range c d t => rangeItems a b s == rangeItems c d t
  | bool a, v => sameNumber (Binary64.exactInt (if a then 1 else 0)) v
  | int a, v => sameNumber (Binary64.exactInt a) v
  | real a, v => sameNumber a v
  | _, _ => false

/-- Equality of a number with a value. -/
def sameNumber (x : Binary64) (v : Value) : Bool :=
  match v.number? with
  | some y => x.same y
  | none => false

/-- Equality item by item. -/
def sameItems : List Value → List Value → Bool
  | [], [] => true
  | x :: xs, y :: ys => same x y && sameItems xs ys
  | _, _ => false

/-- Whether every entry of the first list has an equal one in the second. -/
def sameEntries : List (Value × Value) → List (Value × Value) → Bool
  | [], _ => true
  | (k, v) :: rest, ys =>
    ys.any (fun entry => same k entry.1 && same v entry.2) && sameEntries rest ys

end

instance : BEq Value := ⟨same⟩

/-- Why two values have no order. -/
inductive NoOrder where
  /-- Their kinds have none. -/
  | kinds
  /-- One of them stands for an unbound name. -/
  | missing
  deriving DecidableEq

/-- Why values of two kinds without a common order have none. -/
def NoOrder.between : Value → Value → NoOrder
  | .missing, _ | _, .missing => missing
  | _, _ => kinds

/-- A comparison by order. -/
inductive Relation where
  | less
  | atLeast
  deriving DecidableEq

/-- A comparison where the order is total. -/
def Relation.holds {α : Type} [LT α] [DecidableLT α] (r : Relation) (a b : α) : Bool :=
  match r with
  | less => decide (a < b)
  | atLeast => !decide (a < b)

/-- A comparison of doubles; none holds with NaN. -/
def Relation.ofReals (r : Relation) (x y : Binary64) : Bool :=
  match r with
  | less => x.lt y
  | atLeast => y.le x

/-- A comparison of a number, which is also given as a value, with another value. -/
def Relation.ofNumber (r : Relation) (x : Binary64) (v w : Value) : Except NoOrder Bool :=
  match w.number? with
  | some y => .ok (r.ofReals x y)
  | none => .error (NoOrder.between v w)

mutual

/-- Whether a relation holds between two values. Numbers are ordered by size, texts by code points,
byte strings by bytes, and sequences by their first difference. -/
def relate (r : Relation) : Value → Value → Except NoOrder Bool
  | text s, text t => .ok (r.holds s t)
  | bytes a, bytes b => .ok (r.holds a b)
  | list xs, list ys => relateItems r xs ys
  | tuple xs, tuple ys => relateItems r xs ys
  | bool a, w => r.ofNumber (Binary64.exactInt (if a then 1 else 0)) (bool a) w
  | int a, w => r.ofNumber (Binary64.exactInt a) (int a) w
  | real a, w => r.ofNumber a (real a) w
  | v, w => .error (NoOrder.between v w)

/-- The order of sequences: by the first items that differ, else by length. -/
def relateItems (r : Relation) : List Value → List Value → Except NoOrder Bool
  | x :: xs, y :: ys => if same x y then relateItems r xs ys else relate r x y
  | xs, ys => .ok (r.holds xs.length ys.length)

end

/-- The entries in ascending order of their keys, unless two keys that have to be compared have no
order. -/
def sortByKey {α : Type} (entries : List (Value × α)) : Except NoOrder (List (Value × α)) :=
  Sorting.sort (fun entry other => relate .less entry.1 other.1) entries

/-! ## Roles -/

/-- Whether a condition on the value holds: all but nothing, zero, and the empty collections. -/
def isTrue : Value → Bool
  | null | missing => false
  | bool b => b
  | int n => n != 0
  | real x => !x.same (Binary64.exactInt 0)
  | text s => !s.isEmpty
  | bytes bs => !bs.isEmpty
  | list items | tuple items => !items.isEmpty
  | map entries => !entries.isEmpty
  | object _ | mode _ | directive _ _ | inserter _ _ | builtIn _ => true
  | range start stop step => rangeLength start stop step != 0

mutual

/-- Whether a value can be a key of a map: anything but lists, maps, and tuples that hold one. -/
def isKey : Value → Bool
  | list _ | map _ => false
  | tuple items => areKeys items
  | _ => true

/-- Whether all items can be keys. -/
def areKeys : List Value → Bool
  | [] => true
  | item :: rest => isKey item && areKeys rest

end

/-- What a loop runs over; none if the value offers nothing to a loop. -/
def elements? : Value → Option (List Value)
  | list items | tuple items => some items
  | map entries => some (entries.map (·.1))
  | text s => some (s.toList.map fun c => text (String.ofList [c]))
  | bytes bs => some (bs.map fun b => int b.toNat)
  | range start stop step => some ((rangeItems start stop step).map int)
  | missing => some []
  | _ => none

/-- The entries of a map. -/
def entries? : Value → Option (List (Value × Value))
  | map entries => some entries
  | _ => none

end Value

/-- Bindings of names to values. Names are mostly texts, but a body may bind any key. -/
abbrev Bindings := Table Value Value

end PageBlocks
