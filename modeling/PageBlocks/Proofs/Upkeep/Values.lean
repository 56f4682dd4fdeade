import PageBlocks.Body.Evaluation
import PageBlocks.Proofs.Running
import PageBlocks.Proofs.Tables
import PageBlocks.Site.Run

/-!
# Kinds of values that bodies do not leave

A body prints values, takes them apart, puts them together and hands them to functions of its
language. A check on values is closed if nothing of that leads from values that pass it to one that
does not (`Closed`). What is bound to variables and to parameters then passes the check as well.
-/

set_option autoImplicit false

namespace PageBlocks

open PageBlocks.Running

/-! ## Arguments -/

/-- Every parameter has a value, which is an argument or a default. -/
theorem forall_mem_bindArguments {P : Value → Prop} {ps : List Parameter}
    {arguments values : List Value} {named : Table String Value}
    (hDefaults : ∀ q ∈ ps, ∀ v, q.default = some v → P v) (hArguments : ∀ v ∈ arguments, P v)
    (hNamed : ∀ binding ∈ named, P binding.2)
    (h : bindArguments ps arguments named = .ok values) :
    values.length = ps.length ∧ ∀ v ∈ values, P v := by
  induction ps generalizing arguments named values with
  | nil =>
    cases arguments with
    | nil =>
      cases named with
      | nil =>
        cases h
        exact ⟨rfl, fun _ hMem => absurd hMem List.not_mem_nil⟩
      | cons binding rest => cases h
    | cons v rest => cases h
  | cons q ps ih =>
    rw [List.forall_mem_cons] at hDefaults
    have hNext : ∀ {v : Value} {rest : List Value} {left : Table String Value}, P v →
        (∀ w ∈ rest, P w) → (∀ binding ∈ left, P binding.2) →
          (bindArguments ps rest left).map (v :: ·) = .ok values →
            values.length = (q :: ps).length ∧ ∀ v ∈ values, P v := by
      intro v rest left hValue hRest hLeft hBound
      cases hMore : bindArguments ps rest left with
      | error fault =>
        rw [hMore] at hBound
        cases hBound
      | ok more =>
        rw [hMore] at hBound
        cases hBound
        obtain ⟨hLength, hAll⟩ := ih hDefaults.2 hRest hLeft hMore
        exact ⟨congrArg (· + 1) hLength, List.forall_mem_cons.mpr ⟨hValue, hAll⟩⟩
    cases arguments with
    | cons v rest =>
      rw [List.forall_mem_cons] at hArguments
      rw [bindArguments] at h
      split at h
      · cases h
      · exact hNext hArguments.1 hArguments.2 hNamed h
    | nil =>
      rw [bindArguments] at h
      split at h
      · rename_i v hFound
        have hLeft : ∀ binding ∈ named.erase q.name, P binding.2 :=
          fun binding hMem => hNamed binding (Table.mem_of_mem_erase hMem)
        exact hNext (hNamed _ (Table.mem_of_get?_eq_some hFound)) hArguments hLeft h
      · rename_i v _ hDefault
        exact hNext (hDefaults.1 v hDefault) hArguments hNamed h
      · cases h

namespace Upkeep

/-! ## Closed checks -/

/-- A check that what a body makes of values that pass it passes it again. -/
structure Closed (fits : Value → Bool) : Prop where
  null : fits .null = true
  missing : fits .missing = true
  int : ∀ n, fits (.int n) = true
  range : ∀ start stop step, fits (.range start stop step) = true
  builtIn : ∀ f, fits (.builtIn f) = true
  counter : ∀ round rounds, fits (Body.counter round rounds) = true
  list : ∀ items, fits (.list items) = true ↔ ∀ v ∈ items, fits v = true
  tuple : ∀ items, fits (.tuple items) = true → ∀ v ∈ items, fits v = true
  map : ∀ entries, fits (.map entries) = true
    ↔ ∀ entry ∈ entries, fits entry.1 = true ∧ fits entry.2 = true
  character : ∀ s, fits (.text s) = true → ∀ c ∈ s.toList, fits (.text (String.ofList [c])) = true
  print : ∀ v, fits v = true → fits (.text v.print) = true
  join : ∀ parts : List String, (∀ s ∈ parts, fits (.text s) = true) →
    fits (.text (String.join parts)) = true

/-- Whether the keys and the values of bindings pass a check. -/
def BindingsFit (fits : Value → Bool) (vars : Bindings) : Prop :=
  ∀ entry ∈ vars, fits entry.1 = true ∧ fits entry.2 = true

/-- Whether named arguments have names and values that pass a check. -/
def NamedFit (fits : Value → Bool) (named : List (String × Value)) : Prop :=
  ∀ binding ∈ named, fits (.text binding.1) = true ∧ fits binding.2 = true

section Bindings

variable {fits : Value → Bool} {vars more bound : Bindings} {v : Value}

theorem bindingsFit_nil : BindingsFit fits [] := fun _ hMem => absurd hMem List.not_mem_nil

theorem BindingsFit.merge (h : BindingsFit fits vars) (hMore : BindingsFit fits more) :
    BindingsFit fits (Table.merge vars more) :=
  Table.forall_mem_merge (P := fun key : Value => fits key = true)
    (Q := fun value : Value => fits value = true) h hMore

theorem BindingsFit.insert {key value : Value} (h : BindingsFit fits vars)
    (hKey : fits key = true) (hValue : fits value = true) :
    BindingsFit fits (vars.insert key value) := by
  have hOne : BindingsFit fits [(key, value)] := by
    intro entry hMem
    rw [List.mem_singleton] at hMem
    subst hMem
    exact ⟨hKey, hValue⟩
  have hMerged := h.merge hOne
  exact hMerged

theorem NamedFit.bindings {named : Table String Value} (h : NamedFit fits named) :
    BindingsFit fits (named.map fun binding => (Value.text binding.1, binding.2)) := by
  intro entry hMem
  obtain ⟨binding, hBinding, rfl⟩ := List.mem_map.mp hMem
  exact h binding hBinding

namespace Closed

variable (hClosed : Closed fits)

include hClosed

theorem empty : fits (.text "") = true := hClosed.join [] fun _ hMem => absurd hMem List.not_mem_nil

theorem unbound (dialect : Body.Dialect) : fits dialect.unbound = true := by
  cases dialect with
  | script => exact hClosed.null
  | braces => exact hClosed.missing

theorem joinedText (dialect : Body.Dialect) (h : fits v = true) :
    fits (.text (dialect.joinedText v)) = true := by
  unfold Body.Dialect.joinedText
  split
  · exact hClosed.empty
  · exact hClosed.print v h

theorem outputText (h : fits v = true) : fits (.text (Body.outputText v)) = true := by
  unfold Body.outputText
  split
  · exact hClosed.empty
  · exact hClosed.print v h

/-- What a loop finds in a value passes the check. -/
theorem elements {items : List Value} (h : fits v = true) (hItems : v.elements? = some items) :
    ∀ item ∈ items, fits item = true := by
  cases v with
  | list found =>
    cases hItems
    exact (hClosed.list _).mp h
  | tuple found =>
    cases hItems
    exact hClosed.tuple _ h
  | map entries =>
    cases hItems
    intro item hMem
    obtain ⟨entry, hEntry, rfl⟩ := List.mem_map.mp hMem
    exact ((hClosed.map entries).mp h entry hEntry).1
  | text s =>
    cases hItems
    intro item hMem
    obtain ⟨c, hc, rfl⟩ := List.mem_map.mp hMem
    exact hClosed.character s h c hc
  | bytes bs =>
    cases hItems
    intro item hMem
    obtain ⟨b, -, rfl⟩ := List.mem_map.mp hMem
    exact hClosed.int _
  | range start stop step =>
    cases hItems
    intro item hMem
    obtain ⟨n, -, rfl⟩ := List.mem_map.mp hMem
    exact hClosed.int n
  | missing =>
    cases hItems
    exact fun item hMem => absurd hMem List.not_mem_nil
  | _ => cases hItems

/-! ### Bindings from values -/

theorem ofMap (h : fits v = true) (hBound : Bindings.ofMap v = .ok bound) :
    BindingsFit fits bound := by
  unfold Bindings.ofMap at hBound
  split at hBound
  · cases hBound
    exact (hClosed.map _).mp h
  · split at hBound
    · cases hBound
    · cases hBound
      exact bindingsFit_nil

theorem addPair {pair : Value × Nat} (hBound : BindingsFit fits bound)
    (hPair : fits pair.1 = true) (hMore : Bindings.addPair bound pair = .ok more) :
    BindingsFit fits more := by
  unfold Bindings.addPair at hMore
  split at hMore
  · cases hMore
  · rename_i key value hItems
    have hElements := hClosed.elements hPair hItems
    split at hMore
    · cases hMore
      exact hBound.insert (hElements key (by simp)) (hElements value (by simp))
    · cases hMore
  · cases hMore

theorem addPairs {pairs : List (Value × Nat)} (hBound : BindingsFit fits bound)
    (hPairs : ∀ pair ∈ pairs, fits pair.1 = true)
    (hMore : pairs.foldlM Bindings.addPair bound = .ok more) : BindingsFit fits more := by
  induction pairs generalizing bound with
  | nil =>
    cases hMore
    exact hBound
  | cons pair rest ih =>
    rw [List.forall_mem_cons] at hPairs
    rw [List.foldlM_cons] at hMore
    obtain ⟨next, hNext, hMore⟩ := bind_eq_ok hMore
    exact ih (hClosed.addPair hBound hPairs.1 hNext) hPairs.2 hMore

theorem ofSeries (h : fits v = true) (hBound : Bindings.ofSeries v = .ok bound) :
    BindingsFit fits bound := by
  unfold Bindings.ofSeries at hBound
  split at hBound
  · cases hBound
    exact (hClosed.map _).mp h
  · cases hBound
  · split at hBound
    · rename_i items hItems
      refine hClosed.addPairs bindingsFit_nil (fun pair hMem => ?_) hBound
      exact hClosed.elements h hItems pair.1 (List.fst_mem_of_mem_zipIdx hMem)
    · cases hBound

/-- The variables of a request pass the check if the value that offers them does. -/
theorem ofRequest (h : fits v = true) (hBound : Bindings.ofRequest v = .ok bound) :
    BindingsFit fits bound := by
  unfold Bindings.ofRequest at hBound
  split at hBound
  · exact hClosed.ofSeries h hBound
  · cases hBound
    exact bindingsFit_nil

/-! ### Functions of the language -/

theorem rangeOf {arguments : List Value} (h : Site.rangeOf arguments = .ok v) :
    fits v = true := by
  unfold Site.rangeOf at h
  split at h
  · obtain ⟨stop, -, h⟩ := bind_eq_ok h
    cases h
    exact hClosed.range _ _ _
  · obtain ⟨start, -, h⟩ := bind_eq_ok h
    obtain ⟨stop, -, h⟩ := bind_eq_ok h
    cases h
    exact hClosed.range _ _ _
  · obtain ⟨start, -, h⟩ := bind_eq_ok h
    obtain ⟨stop, -, h⟩ := bind_eq_ok h
    obtain ⟨step, -, h⟩ := bind_eq_ok h
    split at h
    · cases h
    · cases h
      exact hClosed.range _ _ _
  · cases h

/-- What a function of the language gives passes the check if what it is called with is a series of
pairs that do, where it is a series at all. -/
theorem callBuiltIn_of_series {arguments : List Value} {named : Table String Value} {f : BuiltIn}
    (hArguments : ∀ w ∈ arguments, ∀ bound, Bindings.ofSeries w = .ok bound →
      BindingsFit fits bound)
    (hNamed : NamedFit fits named) (h : Site.callBuiltIn arguments named f = .ok v) :
    fits v = true := by
  cases f with
  | range =>
    rw [Site.callBuiltIn] at h
    split at h
    · exact hClosed.rangeOf h
    · cases h
  | mapping =>
    have hMap : ∀ given : Bindings, BindingsFit fits given → fits (Value.map (Table.merge given
        (named.map fun binding => (Value.text binding.1, binding.2)))) = true :=
      fun given hGiven => (hClosed.map _).mpr (hGiven.merge hNamed.bindings)
    unfold Site.callBuiltIn at h
    dsimp only at h
    split at h
    · cases h
      exact hMap [] bindingsFit_nil
    · obtain ⟨given, hGiven, h⟩ := bind_eq_ok h
      cases h
      exact hMap given (hArguments _ List.mem_cons_self given hGiven)
    · cases h

/-- So it does for values that pass the check. -/
theorem callBuiltIn {arguments : List Value} {named : Table String Value} {f : BuiltIn}
    (hArguments : ∀ w ∈ arguments, fits w = true) (hNamed : NamedFit fits named)
    (h : Site.callBuiltIn arguments named f = .ok v) : fits v = true :=
  hClosed.callBuiltIn_of_series
    (fun w hMem _ hBound => hClosed.ofSeries (hArguments w hMem) hBound) hNamed h

end Closed

/-! ### Names of variables -/

/-- The variables of a page that names stand for pass the check. -/
theorem fits_of_mem_namedVariables {dialect : Body.Dialect} {scope : Body.Scope}
    (hVars : BindingsFit fits vars) (h : Site.namedVariables dialect vars = .ok scope) :
    ∀ entry ∈ scope, fits entry.2 = true := by
  unfold Site.namedVariables at h
  have hNone : ∀ entry ∈ ([] : Body.Scope), fits entry.2 = true :=
    fun _ hMem => absurd hMem List.not_mem_nil
  generalize ([] : Body.Scope) = bound at h hNone
  induction vars generalizing bound with
  | nil =>
    cases h
    exact hNone
  | cons entry vars ih =>
    obtain ⟨hEntry, hRest⟩ := List.forall_mem_cons.mp hVars
    rw [List.foldlM_cons] at h
    obtain ⟨next, hNext, h⟩ := bind_eq_ok h
    refine ih hRest next h ?_
    split at hNext
    · cases hNext
      intro other hMem
      rcases Table.eq_or_mem_of_mem_insert hMem with rfl | hOld
      · exact hEntry.2
      · exact hNone other hOld
    · cases hNext
      exact hNone
    · cases hNext

end Bindings

end Upkeep

end PageBlocks
