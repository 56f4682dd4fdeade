import PageBlocks.Fault

/-!
# Bindings from values

Variables are handed over as values. A map offers its entries, and whatever counts as false offers
none. Where a request starts, a series of pairs will do as well, of which later ones win; where a
page hands variables on, it will not.
-/

set_option autoImplicit false

namespace PageBlocks.Bindings

/-- The bindings that a value offers where only maps will do. -/
def ofMap (v : Value) : Except Fault Bindings :=
  match v with
  | .map entries => .ok entries
  | v => if v.isTrue then .error (.host .type) else .ok []

/-- One more binding from a pair, which is given with its place in the series. -/
def addPair (bound : Bindings) (pair : Value × Nat) : Except Fault Bindings :=
  match pair.1.elements? with
  | none => .error (.host .type)
  | some [key, value] => if key.isKey then .ok (bound.insert key value) else .error (.host .type)
  | some items => .error (.value (.pairLength pair.2 items.length))

/-- The bindings of a map or of a series of pairs. -/
def ofSeries (v : Value) : Except Fault Bindings :=
  match v with
  | .map entries => .ok entries
  | .missing => .error (.host .undefinedName)
  | v =>
    match v.elements? with
    | some items => items.zipIdx.foldlM addPair []
    | none => .error (.host .type)

/-- The bindings that a request offers. -/
def ofRequest (v : Value) : Except Fault Bindings := if v.isTrue then ofSeries v else .ok []

end PageBlocks.Bindings
