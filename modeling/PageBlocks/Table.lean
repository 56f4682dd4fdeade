/-!
# Tables

Finite maps that remember the order in which their keys arrived. A key that is bound again keeps
its place and takes the new value.
-/

set_option autoImplicit false

namespace PageBlocks

universe u v

/-- A finite map as a list of bindings in the order of arrival. -/
abbrev Table (κ : Type u) (α : Type v) := List (κ × α)

namespace Table

variable {κ : Type u} {α : Type v} [BEq κ]

/-- The value bound to a key. -/
def get? : Table κ α → κ → Option α
  | [], _ => none
  | (k, v) :: rest, key => if k == key then some v else get? rest key

/-- Whether a key is bound. -/
def has (t : Table κ α) (key : κ) : Bool := (t.get? key).isSome

/-- Bind a key: in its place if it is bound already, at the end otherwise. -/
def insert : Table κ α → κ → α → Table κ α
  | [], key, value => [(key, value)]
  | (k, v) :: rest, key, value =>
    if k == key then (k, value) :: rest else (k, v) :: insert rest key value

/-- Remove a key. -/
def erase : Table κ α → κ → Table κ α
  | [], _ => []
  | (k, v) :: rest, key => if k == key then rest else (k, v) :: erase rest key

/-- The bindings of the first table, with those of the second put on top. -/
def merge (t newer : Table κ α) : Table κ α :=
  newer.foldl (fun t binding => t.insert binding.1 binding.2) t

/-- The table that results from binding in order. -/
def ofBindings (bindings : List (κ × α)) : Table κ α := merge [] bindings

/-- The keys in order of arrival. -/
def keys (t : Table κ α) : List κ := t.map (·.1)

@[simp] theorem get?_nil (key : κ) : get? ([] : Table κ α) key = none := rfl

theorem get?_cons (k : κ) (v : α) (t : Table κ α) (key : κ) :
    get? ((k, v) :: t) key = if k == key then some v else get? t key := rfl

theorem get?_insert_self [LawfulBEq κ] (t : Table κ α) (key : κ) (value : α) :
    (t.insert key value).get? key = some value := by
  induction t with
  | nil => simp [insert, get?]
  | cons binding rest ih =>
    obtain ⟨k, v⟩ := binding
    by_cases h : k == key <;> simp [insert, get?, h, ih]

theorem get?_insert_of_ne [LawfulBEq κ] (t : Table κ α) {key other : κ} (value : α)
    (h : other ≠ key) : (t.insert key value).get? other = t.get? other := by
  induction t with
  | nil => simp [insert, get?, Ne.symm h]
  | cons binding rest ih =>
    obtain ⟨k, v⟩ := binding
    by_cases hk : k = key
    · subst hk
      simp [insert, get?, Ne.symm h]
    · simp [insert, get?, hk, ih]

end Table

end PageBlocks
