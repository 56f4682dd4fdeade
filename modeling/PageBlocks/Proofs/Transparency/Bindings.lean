import PageBlocks.Proofs.Sorting
import PageBlocks.Proofs.Transparency.Values
import PageBlocks.Site.Call

/-!
# Tables, identities and arguments of pages with other numbers

What pages do with values goes along with moving the numbers of pages: looking up, binding and
merging (`shift_insert`, `shift_merge`), putting keys in order (`sortByKey_shift`), writing
variables down (`page_shift`: a page with moved variables has the same identity), and handing over
arguments (`bindArguments_shift`).
-/

set_option autoImplicit false

namespace PageBlocks.Transparency

/-! ## Written forms -/

section Written

variable (k : Nat)

/-- Putting entries in the order of their keys goes along with moving keys. -/
theorem sortByKey_shift {α β : Type} (g : α → β) (entries : List (Value × α)) :
    Value.sortByKey (entries.map fun entry => (entry.1.shift k, g entry.2))
      = (Value.sortByKey entries).map
          (List.map fun entry => (entry.1.shift k, g entry.2)) :=
  Sorting.sort_map (f := fun entry : Value × α => (entry.1.shift k, g entry.2))
    (fun _ _ => relate_shift k .less _ _) entries

theorem order_shift {α : Type} (style : Json.Style) (entries : List (Value × α)) :
    style.order (entries.map fun entry => (entry.1.shift k, entry.2))
      = (style.order entries).map (List.map fun entry => (entry.1.shift k, entry.2)) := by
  unfold Json.Style.order
  split
  · have hSorted := sortByKey_shift k (id : α → α) entries
    simp only [id_eq] at hSorted
    rw [hSorted]
    cases Value.sortByKey entries <;> rfl
  · rfl

theorem key?_shift (v : Value) : Json.key? (v.shift k) = Json.key? v := by
  cases v <;> rfl

theorem entry_shift (style : Json.Style) (entry : Value × Except Json.Obstacle (List Char)) :
    style.entry (entry.1.shift k, entry.2) = style.entry entry := by
  rw [Json.Style.entry, Json.Style.entry, key?_shift]

theorem mapM_entry_shift (style : Json.Style)
    (entries : List (Value × Except Json.Obstacle (List Char))) :
    (entries.map fun entry => (entry.1.shift k, entry.2)).mapM style.entry
      = entries.mapM style.entry := by
  rw [List.mapM_map]
  exact congrArg (fun g => entries.mapM g) (funext fun entry => entry_shift k style entry)

mutual

theorem write_shift (style : Json.Style) : ∀ v : Value,
    Json.write style (v.shift k) = Json.write style v
  | .list items => by
    rw [Value.shift, Json.write, Json.write, writeItems_shift style items]
  | .tuple items => by
    rw [Value.shift, Json.write, Json.write, writeItems_shift style items]
  | .map entries => by
    rw [Value.shift, Json.write, Json.write, writeValues_shift style entries, order_shift]
    cases style.order (Json.writeValues style entries) with
    | error cause => rfl
    | ok ordered =>
      simp only [Except.map, bind, Except.bind]
      rw [mapM_entry_shift]
  | .text _ | .null | .bool _ | .int _ | .real _ | .bytes _ | .object _ | .mode _ | .missing
  | .builtIn _ | .range _ _ _ => by rw [Value.shift]
  | .directive _ _ => rfl
  | .inserter _ _ => rfl

theorem writeItems_shift (style : Json.Style) : ∀ items : List Value,
    Json.writeItems style (Value.shiftItems k items) = Json.writeItems style items
  | [] => rfl
  | item :: rest => by
    rw [Value.shiftItems, Json.writeItems, Json.writeItems, write_shift style item,
      writeItems_shift style rest]

theorem writeValues_shift (style : Json.Style) : ∀ entries : List (Value × Value),
    Json.writeValues style (Value.shiftEntries k entries)
      = (Json.writeValues style entries).map fun entry => (entry.1.shift k, entry.2)
  | [] => rfl
  | (key, value) :: rest => by
    rw [Value.shiftEntries, Json.writeValues, Json.writeValues, write_shift style value,
      writeValues_shift style rest, List.map_cons]

end

theorem quotedVariables_shift (vars : Bindings) :
    Identity.quotedVariables (vars.shift k) = Identity.quotedVariables vars := by
  unfold Identity.quotedVariables Bindings.shift
  rw [sortByKey_shift k (Value.shift k)]
  cases Value.sortByKey vars with
  | error cause => rfl
  | ok sorted =>
    have hPairs : (Value.list (sorted.map fun entry => .tuple [entry.1, entry.2])).shift k
        = Value.list ((sorted.map fun entry => (entry.1.shift k, entry.2.shift k)).map
            fun entry => .tuple [entry.1, entry.2]) := by
      simp [Value.shift, Function.comp_def]
    exact congrArg Except.ok ((congrArg Value.quotedChars hPairs).symm.trans
      (quotedChars_shift k _))

theorem variablesText_shift (vars : Bindings) :
    Identity.variablesText (vars.shift k) = Identity.variablesText vars := by
  have hWritten : Json.write Json.Style.identity (.map (vars.shift k))
      = Json.write Json.Style.identity (.map vars) := by
    have hShift := write_shift k Json.Style.identity (.map vars)
    rwa [Value.shift, shiftEntries_eq_shift] at hShift
  unfold Identity.variablesText
  rw [hWritten, quotedVariables_shift]

/-- A page with moved variables has the same identity. -/
theorem page_shift (path : String) (vars : Bindings) :
    Identity.page path (vars.shift k) = Identity.page path vars := by
  rw [Identity.page, Identity.pageText, variablesText_shift, Identity.page, Identity.pageText]

end Written

/-! ## Tables -/

section Tables

variable (k : Nat) {α β : Type}

theorem get?_shift (g : α → β) (t : Table Value α) (key : Value) :
    Table.get? (t.map fun entry => (entry.1.shift k, g entry.2)) (key.shift k)
      = (Table.get? t key).map g := by
  induction t with
  | nil => rfl
  | cons entry rest ih =>
    obtain ⟨other, value⟩ := entry
    rw [List.map_cons, Table.get?_cons, Table.get?_cons, beq_shift, ih]
    split <;> rfl

theorem insert_shift (g : α → β) (t : Table Value α) (key : Value) (value : α) :
    Table.insert (t.map fun entry => (entry.1.shift k, g entry.2)) (key.shift k) (g value)
      = (Table.insert t key value).map fun entry => (entry.1.shift k, g entry.2) := by
  induction t with
  | nil => rfl
  | cons entry rest ih =>
    obtain ⟨other, old⟩ := entry
    rw [List.map_cons, Table.insert, Table.insert, beq_shift, ih]
    split <;> rfl

theorem merge_shift (t newer : Bindings) :
    Table.merge (t.shift k) (newer.shift k) = Bindings.shift k (Table.merge t newer) := by
  unfold Bindings.shift Table.merge
  rw [List.foldl_map]
  induction newer generalizing t with
  | nil => rfl
  | cons entry rest ih =>
    rw [List.foldl_cons, List.foldl_cons, insert_shift]
    exact ih _

theorem ofBindings_shift (vars : Bindings) :
    Table.ofBindings (vars.shift k) = Bindings.shift k (Table.ofBindings vars) :=
  merge_shift k [] vars

/-- Named values with the numbers of the pages in them moved up. -/
def shiftNamed (named : Table String Value) : Table String Value :=
  named.map fun entry => (entry.1, entry.2.shift k)

theorem get?_shiftNamed (t : Table String Value) (key : String) :
    Table.get? (shiftNamed k t) key = (t.get? key).map (Value.shift k) := by
  induction t with
  | nil => rfl
  | cons entry rest ih =>
    obtain ⟨other, value⟩ := entry
    rw [shiftNamed, List.map_cons, Table.get?_cons, Table.get?_cons, ← shiftNamed, ih]
    split <;> rfl

theorem has_shiftNamed (t : Table String Value) (key : String) :
    Table.has (shiftNamed k t) key = t.has key := by
  rw [Table.has, get?_shiftNamed, Option.isSome_map, Table.has]

theorem insert_shiftNamed (t : Table String Value) (key : String) (value : Value) :
    Table.insert (shiftNamed k t) key (value.shift k)
      = shiftNamed k (Table.insert t key value) := by
  induction t with
  | nil => rfl
  | cons entry rest ih =>
    obtain ⟨other, old⟩ := entry
    rw [shiftNamed, List.map_cons, Table.insert, Table.insert, ← shiftNamed, ih]
    split <;> rfl

theorem erase_shiftNamed (t : Table String Value) (key : String) :
    Table.erase (shiftNamed k t) key = shiftNamed k (Table.erase t key) := by
  induction t with
  | nil => rfl
  | cons entry rest ih =>
    obtain ⟨other, old⟩ := entry
    rw [shiftNamed, List.map_cons, Table.erase, Table.erase, ← shiftNamed, ih]
    split <;> rfl

theorem merge_shiftNamed (t newer : Table String Value) :
    Table.merge (shiftNamed k t) (shiftNamed k newer) = shiftNamed k (Table.merge t newer) := by
  unfold Table.merge
  rw [shiftNamed, shiftNamed, List.foldl_map, ← shiftNamed]
  induction newer generalizing t with
  | nil => rfl
  | cons entry rest ih =>
    rw [List.foldl_cons, List.foldl_cons, insert_shiftNamed]
    exact ih _

theorem ofBindings_shiftNamed (named : List (String × Value)) :
    Table.ofBindings (shiftNamed k named) = shiftNamed k (Table.ofBindings named) :=
  merge_shiftNamed k [] named

end Tables

/-! ## Arguments -/

section Arguments

variable (k : Nat)

theorem ofMap_of_ne {v : Value} (h : ∀ entries, v ≠ .map entries) :
    Bindings.ofMap v = if v.isTrue then .error (.host .type) else .ok [] := by
  unfold Bindings.ofMap
  split
  · exact absurd rfl (h _)
  · rfl

theorem ofMap_shift (v : Value) :
    Bindings.ofMap (v.shift k) = (Bindings.ofMap v).map (Bindings.shift k) := by
  by_cases hMap : ∃ entries, v = .map entries
  · obtain ⟨entries, rfl⟩ := hMap
    exact congrArg Except.ok (shiftEntries_eq_shift k entries)
  · have hNot : ∀ entries, v ≠ .map entries := fun entries hSame => hMap ⟨entries, hSame⟩
    have hNotShifted : ∀ entries, v.shift k ≠ .map entries := by
      intro entries hSame
      cases v with
      | map entries => exact hNot entries rfl
      | _ => cases hSame
    rw [ofMap_of_ne hNotShifted, ofMap_of_ne hNot, isTrue_shift]
    split <;> rfl

theorem addPair_shift (bound : Bindings) (pair : Value × Nat) :
    Bindings.addPair (bound.shift k) (pair.1.shift k, pair.2)
      = (Bindings.addPair bound pair).map (Bindings.shift k) := by
  unfold Bindings.addPair
  dsimp only
  rw [elements?_shift]
  cases pair.1.elements? with
  | none => rfl
  | some items =>
    match items with
    | [] => rfl
    | [_] => rfl
    | [key, value] =>
      simp only [Option.map_some, List.map_cons, List.map_nil, isKey_shift]
      split
      · exact congrArg Except.ok (insert_shift k (Value.shift k) bound key value)
      · rfl
    | _ :: _ :: _ :: _ => simp [Except.map]

theorem addPairs_shift (pairs : List (Value × Nat)) (bound : Bindings) :
    (pairs.map fun pair => (pair.1.shift k, pair.2)).foldlM Bindings.addPair (bound.shift k)
      = (pairs.foldlM Bindings.addPair bound).map (Bindings.shift k) := by
  induction pairs generalizing bound with
  | nil => rfl
  | cons pair rest ih =>
    rw [List.map_cons, List.foldlM_cons, List.foldlM_cons, addPair_shift]
    cases Bindings.addPair bound pair with
    | error fault => rfl
    | ok more => exact ih more

theorem ofSeries_shift (v : Value) :
    Bindings.ofSeries (v.shift k) = (Bindings.ofSeries v).map (Bindings.shift k) := by
  have hElements : ∀ items : List Value,
      (items.map (Value.shift k)).zipIdx.foldlM Bindings.addPair []
        = (items.zipIdx.foldlM Bindings.addPair []).map (Bindings.shift k) := by
    intro items
    rw [← addPairs_shift k items.zipIdx [], List.zipIdx_map]
    rfl
  cases v with
  | map entries => exact congrArg Except.ok (shiftEntries_eq_shift k entries)
  | missing => rfl
  | list items | tuple items =>
    simp only [Bindings.ofSeries, Value.shift, Value.elements?, shiftItems_eq_map]
    exact hElements items
  | text s | bytes bs =>
    simp only [Bindings.ofSeries, Value.shift, Value.elements?]
    rw [← hElements, List.map_map]
    rfl
  | range start stop step =>
    simp only [Bindings.ofSeries, Value.shift, Value.elements?]
    rw [← hElements, List.map_map]
    rfl
  | _ => rfl

theorem wholeOf_shift (v : Value) : Site.wholeOf (v.shift k) = Site.wholeOf v := by
  cases v <;> rfl

theorem rangeOf_shift (arguments : List Value) :
    Site.rangeOf (arguments.map (Value.shift k))
      = (Site.rangeOf arguments).map (Value.shift k) := by
  match arguments with
  | [] => rfl
  | [stop] =>
    simp only [Site.rangeOf, List.map_cons, List.map_nil, wholeOf_shift]
    cases Site.wholeOf stop <;> rfl
  | [start, stop] =>
    simp only [Site.rangeOf, List.map_cons, List.map_nil, wholeOf_shift]
    cases Site.wholeOf start <;> cases Site.wholeOf stop <;> rfl
  | [start, stop, step] =>
    simp only [Site.rangeOf, List.map_cons, List.map_nil, wholeOf_shift]
    cases Site.wholeOf start with
    | error fault => rfl
    | ok first =>
      cases Site.wholeOf stop with
      | error fault => rfl
      | ok last =>
        cases Site.wholeOf step with
        | error fault => rfl
        | ok width => by_cases hZero : width = 0 <;> simp [bind, Except.bind, hZero] <;> rfl
  | _ :: _ :: _ :: _ :: _ => rfl

/-- Named values as bindings. -/
theorem shift_named (named : Table String Value) :
    Bindings.shift k (named.map fun binding => (Value.text binding.1, binding.2))
      = (shiftNamed k named).map fun binding => (Value.text binding.1, binding.2) := by
  simp [Bindings.shift, shiftNamed, Value.shift, Function.comp_def]

theorem callBuiltIn_shift (arguments : List Value) (named : Table String Value) (f : BuiltIn) :
    Site.callBuiltIn (arguments.map (Value.shift k)) (shiftNamed k named) f
      = (Site.callBuiltIn arguments named f).map (Value.shift k) := by
  have hMap : ∀ given : Bindings,
      Value.map (Table.merge (given.shift k)
        ((shiftNamed k named).map fun binding => (Value.text binding.1, binding.2)))
      = (Value.map (Table.merge given
          (named.map fun binding => (Value.text binding.1, binding.2)))).shift k := by
    intro given
    rw [← shift_named, merge_shift, Value.shift, shiftEntries_eq_shift]
  cases f with
  | range =>
    rw [Site.callBuiltIn, Site.callBuiltIn, rangeOf_shift, shiftNamed, List.isEmpty_map]
    split <;> rfl
  | mapping =>
    match arguments with
    | [] => exact congrArg Except.ok (hMap [])
    | [v] =>
      simp only [Site.callBuiltIn, List.map_cons, List.map_nil, ofSeries_shift]
      cases Bindings.ofSeries v with
      | error fault => rfl
      | ok given => exact congrArg Except.ok (hMap given)
    | _ :: _ :: _ => rfl

/-- The values of parameters whose defaults know no pages. -/
theorem bindArguments_shift {ps : List Parameter}
    (hDefaults : ∀ p ∈ ps, ∀ v, p.default = some v → v.shift k = v) (arguments : List Value)
    (named : Table String Value) :
    bindArguments ps (arguments.map (Value.shift k)) (shiftNamed k named)
      = (bindArguments ps arguments named).map (List.map (Value.shift k)) := by
  induction ps generalizing arguments named with
  | nil => cases arguments <;> cases named <;> rfl
  | cons p ps ih =>
    have hRest := ih fun q hMem => hDefaults q (List.mem_cons_of_mem _ hMem)
    cases arguments with
    | cons v rest =>
      rw [List.map_cons, bindArguments, bindArguments, has_shiftNamed, hRest]
      split
      · rfl
      · cases bindArguments ps rest named <;> rfl
    | nil =>
      have hNil := hRest []
      rw [List.map_nil] at hNil
      rw [List.map_nil, bindArguments, bindArguments, get?_shiftNamed, erase_shiftNamed, hNil, hNil]
      cases named.get? p.name with
      | some v => cases bindArguments ps [] (named.erase p.name) <;> rfl
      | none =>
        cases hDefault : p.default with
        | some v =>
          have hSame := hDefaults p List.mem_cons_self v hDefault
          cases bindArguments ps [] named with
          | error fault => rfl
          | ok values => exact congrArg (fun first => Except.ok (first :: _)) hSame.symm
        | none => rfl

end Arguments

end PageBlocks.Transparency
