import PageBlocks.Bindings
import PageBlocks.Page.Identity

/-!
# Values of pages with other numbers

Directives and inserters belong to a page, which they know by its number. Moving all numbers up
(`Value.shift`) does not change what can be seen of a value: its texts, its order and its equality
with values that are moved as far stay what they were. Tables of moved values are moved tables, and
the identity of a page with moved variables is the same.
-/

set_option autoImplicit false

namespace PageBlocks

namespace Value

mutual

/-- A value with the numbers of the pages in it moved up. -/
def shift (k : Nat) : Value → Value
  | null => null
  | bool b => bool b
  | int n => int n
  | real x => real x
  | text s => text s
  | bytes bs => bytes bs
  | list items => list (shiftItems k items)
  | tuple items => tuple (shiftItems k items)
  | map entries => map (shiftEntries k entries)
  | object name => object name
  | mode m => mode m
  | missing => missing
  | directive page name => directive (page + k) name
  | inserter page template => inserter (page + k) (shift k template)
  | builtIn f => builtIn f
  | range start stop step => range start stop step

/-- Items with the numbers of the pages in them moved up. -/
def shiftItems (k : Nat) : List Value → List Value
  | [] => []
  | item :: rest => shift k item :: shiftItems k rest

/-- Entries with the numbers of the pages in them moved up. -/
def shiftEntries (k : Nat) : List (Value × Value) → List (Value × Value)
  | [] => []
  | (key, value) :: rest => (shift k key, shift k value) :: shiftEntries k rest

end

end Value

/-- Bindings with the numbers of the pages in them moved up. -/
def Bindings.shift (k : Nat) (vars : Bindings) : Bindings :=
  vars.map fun entry => (entry.1.shift k, entry.2.shift k)

namespace Transparency

open PageBlocks.Number

section Values

variable (k : Nat)

@[simp] theorem shiftItems_eq_map (items : List Value) :
    Value.shiftItems k items = items.map (Value.shift k) := by
  induction items with
  | nil => rfl
  | cons item rest ih => rw [Value.shiftItems, ih, List.map_cons]

@[simp] theorem shiftEntries_eq_shift (entries : List (Value × Value)) :
    Value.shiftEntries k entries = Bindings.shift k entries := by
  induction entries with
  | nil => rfl
  | cons entry rest ih =>
    rw [Value.shiftEntries, ih]
    rfl

/-! ## Printed forms -/

/-- How quoted items make up the quoted form of a list. -/
def bracketed (items : List (List Char)) : List Char := '[' :: Value.commaSeparated items ++ [']']

/-- How quoted items make up the quoted form of a tuple of several. -/
def tupled (items : List (List Char)) : List Char := '(' :: Value.commaSeparated items ++ [')']

/-- How a quoted item makes up the quoted form of a tuple. -/
def parenthesized (item : List Char) : List Char := '(' :: item ++ [',', ')']

/-- How quoted entries make up the quoted form of a map. -/
def braced (entries : List (List Char)) : List Char :=
  '\x7b' :: Value.commaSeparated entries ++ ['\x7d']

mutual

@[simp] theorem quotedChars_shift : ∀ v : Value, (v.shift k).quotedChars = v.quotedChars
  | .list items => congrArg bracketed (quotedItems_shift items)
  | .tuple [] => rfl
  | .tuple [item] => congrArg parenthesized (quotedChars_shift item)
  | .tuple (first :: second :: rest) =>
    congrArg tupled (quotedItems_shift (first :: second :: rest))
  | .map entries => congrArg braced (quotedEntries_shift entries)
  | .null | .bool _ | .int _ | .real _ | .text _ | .bytes _ | .object _ | .mode _ | .missing
  | .builtIn _ | .range _ _ _ | .directive _ _ | .inserter _ _ => rfl

@[simp] theorem quotedItems_shift : ∀ items : List Value,
    Value.quotedItems (Value.shiftItems k items) = Value.quotedItems items
  | [] => rfl
  | item :: rest => by
    exact List.cons_eq_cons.mpr ⟨quotedChars_shift item, quotedItems_shift rest⟩

@[simp] theorem quotedEntries_shift : ∀ entries : List (Value × Value),
    Value.quotedEntries (Value.shiftEntries k entries) = Value.quotedEntries entries
  | [] => rfl
  | (key, value) :: rest => by
    have hEntry : (key.shift k).quotedChars ++ ':' :: ' ' :: (value.shift k).quotedChars
        = key.quotedChars ++ ':' :: ' ' :: value.quotedChars := by
      rw [quotedChars_shift key, quotedChars_shift value]
    exact List.cons_eq_cons.mpr ⟨hEntry, quotedEntries_shift rest⟩

end

theorem quoted_shift (v : Value) : (v.shift k).quoted = v.quoted := by
  rw [Value.quoted, quotedChars_shift, Value.quoted]

@[simp] theorem print_shift (v : Value) : (v.shift k).print = v.print := by
  cases v with
  | text s => rfl
  | mode m => rfl
  | missing => rfl
  | _ => exact quoted_shift k _

/-! ## Equality and order -/

@[simp] theorem number?_shift (v : Value) : (v.shift k).number? = v.number? := by
  cases v <;> rfl

theorem beq_add_right (p q : Nat) : (p + k == q + k) = (p == q) := by
  rw [Bool.eq_iff_iff, beq_iff_eq, beq_iff_eq, Nat.add_right_cancel_iff]

mutual

@[simp] theorem same_shift : ∀ v w : Value, Value.same (v.shift k) (w.shift k) = Value.same v w
  | .list xs, w => by cases w <;> first | rfl | exact sameItems_shift xs _
  | .tuple xs, w => by cases w <;> first | rfl | exact sameItems_shift xs _
  | .map xs, w => by
    cases w with
    | map ys =>
      have hLength : ∀ entries, (Value.shiftEntries k entries).length = entries.length := by
        intro entries
        rw [shiftEntries_eq_shift, Bindings.shift, List.length_map]
      rw [Value.shift, Value.shift, Value.same, Value.same, hLength, hLength, sameEntries_shift xs]
    | _ => rfl
  | .directive p d, w => by
    cases w with
    | directive q e => rw [Value.shift, Value.shift, Value.same, Value.same, beq_add_right]
    | _ => rfl
  | .inserter p a, w => by
    cases w with
    | inserter q b =>
      rw [Value.shift, Value.shift, Value.same, Value.same, beq_add_right, same_shift a]
    | _ => rfl
  | .bool a, w => by cases w <;> rfl
  | .int a, w => by cases w <;> rfl
  | .real a, w => by cases w <;> rfl
  | .null, w => by cases w <;> rfl
  | .text a, w => by cases w <;> rfl
  | .bytes a, w => by cases w <;> rfl
  | .object a, w => by cases w <;> rfl
  | .mode a, w => by cases w <;> rfl
  | .missing, w => by cases w <;> rfl
  | .builtIn f, w => by cases w <;> rfl
  | .range a b c, w => by cases w <;> rfl

@[simp] theorem sameItems_shift : ∀ xs ys : List Value,
    Value.sameItems (Value.shiftItems k xs) (Value.shiftItems k ys) = Value.sameItems xs ys
  | [], [] => rfl
  | [], _ :: _ => rfl
  | _ :: _, [] => rfl
  | x :: xs, y :: ys => by
    rw [Value.shiftItems, Value.shiftItems, Value.sameItems, Value.sameItems, same_shift x,
      sameItems_shift xs]

@[simp] theorem sameEntries_shift : ∀ xs ys : List (Value × Value),
    Value.sameEntries (Value.shiftEntries k xs) (Value.shiftEntries k ys) = Value.sameEntries xs ys
  | [], _ => rfl
  | (key, value) :: rest, ys => by
    rw [Value.shiftEntries, Value.sameEntries, Value.sameEntries, sameEntries_shift rest,
      shiftEntries_eq_shift, Bindings.shift, List.any_map]
    simp only [Function.comp_def, same_shift key, same_shift value]

end

theorem beq_shift (v w : Value) : (v.shift k == w.shift k) = (v == w) := same_shift k v w

theorem noOrder_shift (v w : Value) :
    Value.NoOrder.between (v.shift k) (w.shift k) = Value.NoOrder.between v w := by
  cases v <;> cases w <;> rfl

theorem ofNumber_shift (r : Value.Relation) (x : Binary64) (v w : Value) :
    r.ofNumber x (v.shift k) (w.shift k) = r.ofNumber x v w := by
  rw [Value.Relation.ofNumber, Value.Relation.ofNumber, number?_shift, noOrder_shift]

mutual

theorem relate_shift (r : Value.Relation) : ∀ v w : Value,
    Value.relate r (v.shift k) (w.shift k) = Value.relate r v w
  | .list xs, w => by cases w <;> first | rfl | exact relateItems_shift r xs _
  | .tuple xs, w => by cases w <;> first | rfl | exact relateItems_shift r xs _
  | .bool a, w => ofNumber_shift k r _ (.bool a) w
  | .int a, w => ofNumber_shift k r _ (.int a) w
  | .real a, w => ofNumber_shift k r _ (.real a) w
  | .map xs, w => by cases w <;> rfl
  | .directive p d, w => by cases w <;> rfl
  | .inserter p a, w => by cases w <;> rfl
  | .null, w => by cases w <;> rfl
  | .text a, w => by cases w <;> rfl
  | .bytes a, w => by cases w <;> rfl
  | .object a, w => by cases w <;> rfl
  | .mode a, w => by cases w <;> rfl
  | .missing, w => by cases w <;> rfl
  | .builtIn f, w => by cases w <;> rfl
  | .range a b c, w => by cases w <;> rfl

theorem relateItems_shift (r : Value.Relation) : ∀ xs ys : List Value,
    Value.relateItems r (Value.shiftItems k xs) (Value.shiftItems k ys) = Value.relateItems r xs ys
  | [], [] => rfl
  | [], _ :: _ => by simp [Value.shiftItems, Value.relateItems]
  | _ :: _, [] => by simp [Value.shiftItems, Value.relateItems]
  | x :: xs, y :: ys => by
    rw [Value.shiftItems, Value.shiftItems, Value.relateItems, Value.relateItems, same_shift,
      relateItems_shift r xs ys, relate_shift r x y]

end

/-! ## Roles -/

@[simp] theorem isTrue_shift (v : Value) : (v.shift k).isTrue = v.isTrue := by
  cases v <;> simp [Value.shift, Value.isTrue, Bindings.shift]

mutual

@[simp] theorem isKey_shift : ∀ v : Value, (v.shift k).isKey = v.isKey
  | .tuple items => areKeys_shift items
  | .list _ | .map _ | .null | .bool _ | .int _ | .real _ | .text _ | .bytes _ | .object _
  | .mode _ | .missing | .builtIn _ | .range _ _ _ | .directive _ _ | .inserter _ _ => rfl

theorem areKeys_shift : ∀ items : List Value,
    Value.areKeys (Value.shiftItems k items) = Value.areKeys items
  | [] => rfl
  | item :: rest => by
    rw [Value.shiftItems, Value.areKeys, Value.areKeys, isKey_shift item, areKeys_shift rest]

end

theorem elements?_shift (v : Value) :
    (v.shift k).elements? = v.elements?.map fun items => items.map (Value.shift k) := by
  cases v <;> simp [Value.shift, Value.elements?, Bindings.shift, Function.comp_def]

end Values

end Transparency

end PageBlocks
