import PageBlocks.Proofs.Deferral.Values
import PageBlocks.Proofs.Transparency.Bindings
import PageBlocks.Proofs.Upkeep.Evaluation

/-!
# Bodies that run in step

Two computations are in step if from states that are near each other either both fail or both end
well, with results that correspond, and the states that they end in are near again (`InStep`). A
body whose literals know no pages runs in step with itself on moved values (`inStep_runAll`),
provided that the calls and the output of the two pages are in step.
-/

set_option autoImplicit false

namespace PageBlocks

/-- Whether a value knows no page, and is not made of values that do. -/
def Value.isData (v : Value) : Bool :=
  v.every fun
    | .directive _ _ | .inserter _ _ => false
    | _ => true

namespace Transparency

open PageBlocks.Body PageBlocks.Deferral PageBlocks.Running PageBlocks.Site PageBlocks.Upkeep

/-! ## Data -/

mutual

/-- Moving numbers of pages leaves data as it is. -/
theorem shift_of_isData (k : Nat) : ∀ v : Value, v.isData = true → v.shift k = v
  | .list items, h => congrArg Value.list (shiftItems_of_isData k items h)
  | .tuple items, h => congrArg Value.tuple (shiftItems_of_isData k items h)
  | .map entries, h => congrArg Value.map (shiftEntries_of_isData k entries h)
  | .null, _ | .bool _, _ | .int _, _ | .real _, _ | .text _, _ | .bytes _, _ | .object _, _
  | .mode _, _ | .missing, _ | .builtIn _, _ | .range _ _ _, _ => rfl

theorem shiftItems_of_isData (k : Nat) : ∀ items : List Value,
    Value.everyItem (fun
      | .directive _ _ | .inserter _ _ => false
      | _ => true) items = true → Value.shiftItems k items = items
  | [], _ => rfl
  | item :: rest, h => by
    rw [Value.everyItem, Bool.and_eq_true] at h
    rw [Value.shiftItems, shift_of_isData k item h.1, shiftItems_of_isData k rest h.2]

theorem shiftEntries_of_isData (k : Nat) : ∀ entries : List (Value × Value),
    Value.everyEntry (fun
      | .directive _ _ | .inserter _ _ => false
      | _ => true) entries = true → Value.shiftEntries k entries = entries
  | [], _ => rfl
  | (key, value) :: rest, h => by
    rw [Value.everyEntry, Bool.and_eq_true, Bool.and_eq_true] at h
    rw [Value.shiftEntries, shift_of_isData k key h.1.1, shift_of_isData k value h.1.2,
      shiftEntries_of_isData k rest h.2]

end

/-- The rules of bodies whose literals are data. -/
def plain : Rules := { fits := Value.isData, free := fun _ => true }

/-! ## Computations in step -/

/-- Two computations end alike from states that are near each other, in states that are near
again. -/
def InStep {σ τ α β : Type} (near : σ → τ → Prop) (g : α → β) (x : Run σ α) (y : Run τ β) : Prop :=
  ∀ s t, near s t → Ends x s (fun a s' => ∃ t', y.run t = (.ok (g a), t') ∧ near s' t')
    fun s' => ∃ fault t', y.run t = (.error fault, t') ∧ near s' t'

section InStep

variable {σ τ α β γ δ : Type} {near : σ → τ → Prop} {g : α → β}

theorem inStep_pure {a : α} {b : β} (h : b = g a) : InStep near g (pure a) (pure b) :=
  fun _ t hNear => ends_pure ⟨t, by rw [h]; rfl, hNear⟩

theorem inStep_throw (fault fault' : Fault) :
    InStep near g (throw fault : Run σ α) (throw fault') :=
  fun _ t hNear => ends_throw ⟨fault', t, rfl, hNear⟩

theorem inStep_throw_bind (fault fault' : Fault) {f : α → Run σ γ} {f' : β → Run τ δ} {g' : γ → δ} :
    InStep near g' ((throw fault : Run σ α) >>= f) ((throw fault' : Run τ β) >>= f') :=
  fun _ t hNear => ends_bind_of_run_error rfl ⟨fault', t, rfl, hNear⟩

theorem InStep.bind {x : Run σ α} {y : Run τ β} {f : α → Run σ γ} {f' : β → Run τ δ} {g' : γ → δ}
    (h : InStep near g x y) (hNext : ∀ a, InStep near g' (f a) (f' (g a))) :
    InStep near g' (x >>= f) (y >>= f') := by
  intro s t hNear
  refine Ends.bind (Ends.mono (h s t hNear) (fun _ _ hEnd => hEnd) ?_) ?_
  · rintro s' ⟨fault, t', hRun, hNear'⟩
    exact ⟨fault, t', run_bind_of_error hRun _, hNear'⟩
  · rintro a s' ⟨t', hRun, hNear'⟩
    have hGoes : (y >>= f').run t = (f' (g a)).run t' := run_bind_of_ok hRun _
    rw [hGoes]
    exact hNext a s' t' hNear'

theorem InStep.map {x : Run σ α} {y : Run τ β} {f : α → γ} {f' : β → δ} {g' : γ → δ}
    (h : InStep near g x y) (hMap : ∀ a, f' (g a) = g' (f a)) :
    InStep near g' (f <$> x) (f' <$> y) := by
  intro s t hNear
  refine Ends.map (Ends.mono (h s t hNear) ?_ ?_)
  · rintro a s' ⟨t', hRun, hNear'⟩
    refine ⟨t', ?_, hNear'⟩
    rw [run_map_of_ok hRun, hMap]
  · rintro s' ⟨fault, t', hRun, hNear'⟩
    refine ⟨fault, t', ?_, hNear'⟩
    rw [run_map, hRun]

/-- What is read off the states may be used at once. -/
theorem inStep_get_bind {f : σ → Run σ α} {f' : τ → Run τ β}
    (h : ∀ s t, near s t → Ends (f s) s
      (fun a s' => ∃ t', (f' t).run t = (.ok (g a), t') ∧ near s' t')
      fun s' => ∃ fault t', (f' t).run t = (.error fault, t') ∧ near s' t') :
    InStep near g (get >>= f) (get >>= f') := by
  intro s t hNear
  have hGoes : (get >>= f').run t = (f' t).run t := run_bind_of_ok (run_get t) _
  rw [hGoes]
  exact ends_get_bind (h s t hNear)

theorem inStep_modify {f : σ → σ} {f' : τ → τ} (h : ∀ s t, near s t → near (f s) (f' t)) :
    InStep near id (modify f : Run σ PUnit) (modify f') :=
  fun s t hNear => ends_modify ⟨f' t, rfl, h s t hNear⟩

end InStep

/-- Computations without effects whose results correspond are in step. -/
theorem inStep_check {α β : Type} {near : World → World → Prop} {g : α → β} {x : Except Fault α}
    {y : Except Fault β} (h : y = x.map g) : InStep near g (check x) (check y) := by
  subst h
  cases x with
  | ok a => exact inStep_pure rfl
  | error fault => exact inStep_throw fault fault

/-! ## Bodies -/

section Bodies

variable {near : World → World → Prop} {k : Nat}

/-- The calls and the output of two pages are in step. -/
structure Follows (near : World → World → Prop) (k : Nat) (h h' : Handler SiteM) : Prop where
  dialect : h'.dialect = h.dialect
  call : ∀ (callee : Value) (arguments : List Value) (named : List (String × Value)),
    InStep near (Value.shift k) (h.call callee arguments named)
      (h'.call (callee.shift k) (arguments.map (Value.shift k)) (shiftNamed k named))
  write : ∀ s, InStep near id (h.write s) (h'.write s)

theorem unbound_shift (dialect : Dialect) : dialect.unbound.shift k = dialect.unbound := by
  cases dialect <;> rfl

theorem joinedText_shift (dialect : Dialect) (v : Value) :
    dialect.joinedText (v.shift k) = dialect.joinedText v := by
  have hPrint := print_shift k v
  cases dialect with
  | braces => exact hPrint
  | script =>
    cases v with
    | null => rfl
    | _ => exact hPrint

theorem outputText_shift (v : Value) : outputText (v.shift k) = outputText v := by
  have hPrint := print_shift k v
  cases v with
  | null => rfl
  | _ => exact hPrint

theorem refusesCallee_shift (dialect : Dialect) (scope : Scope) (e : Expr) :
    dialect.refusesCallee (shiftNamed k scope) e = dialect.refusesCallee scope e := by
  cases e with
  | name s => rw [Dialect.refusesCallee, has_shiftNamed, Dialect.refusesCallee]
  | _ => rfl

theorem getD_shiftNamed (dialect : Dialect) (scope : Scope) (s : String) :
    ((shiftNamed k scope).get? s).getD dialect.unbound
      = ((scope.get? s).getD dialect.unbound).shift k := by
  rw [get?_shiftNamed]
  cases scope.get? s with
  | some v => rfl
  | none => exact (unbound_shift dialect).symm

theorem inStep_mapOf (entries : List (Value × Value)) :
    InStep near (Value.shift k) (mapOf entries : SiteM Value)
      (mapOf (Bindings.shift k entries)) := by
  have hKeys : ((Bindings.shift k entries).all fun entry => entry.1.isKey)
      = entries.all fun entry => entry.1.isKey := by
    simp [Bindings.shift, List.all_map, Function.comp_def]
  unfold mapOf
  rw [hKeys]
  split
  · refine inStep_pure ?_
    rw [ofBindings_shift, Value.shift, shiftEntries_eq_shift]
  · exact inStep_throw _ _

theorem foldl_erase_shiftNamed (names : List String) (scope : Scope) :
    names.foldl Table.erase (shiftNamed k scope)
      = shiftNamed k (names.foldl Table.erase scope) := by
  induction names generalizing scope with
  | nil => rfl
  | cons name rest ih => rw [List.foldl_cons, List.foldl_cons, erase_shiftNamed, ih]

variable {h h' : Handler SiteM}

mutual

theorem inStep_eval (hFollows : Follows near k h h') (scope : Scope) :
    ∀ e : Expr, e.keeps plain = true →
      InStep near (Value.shift k) (e.eval h scope) (e.eval h' (shiftNamed k scope))
  | .literal v, hKeeps => by
    simp only [Expr.eval]
    exact inStep_pure (shift_of_isData k v hKeeps).symm
  | .name s, _ => by
    simp only [Expr.eval, hFollows.dialect]
    exact inStep_pure (getD_shiftNamed _ scope s)
  | .call f arguments named, hKeeps => by
    simp only [Expr.keeps, plain, Bool.false_or, Bool.and_eq_true] at hKeeps
    simp only [Expr.eval, hFollows.dialect, refusesCallee_shift]
    split
    · exact inStep_throw _ _
    · refine (inStep_eval hFollows scope f hKeeps.1.1).bind fun callee => ?_
      refine (inStep_evalAll hFollows scope arguments hKeeps.1.2).bind fun values => ?_
      refine (inStep_evalNamed hFollows scope named hKeeps.2).bind fun bound => ?_
      have hCall := hFollows.call callee values bound
      cases callee with
      | missing => exact inStep_throw _ _
      | _ => exact hCall
  | .join parts, hKeeps => by
    simp only [Expr.eval, hFollows.dialect]
    refine (inStep_evalAll hFollows scope parts hKeeps).bind fun values => inStep_pure ?_
    rw [List.map_map, Value.shift]
    exact congrArg (fun texts => Value.text (String.join texts))
      (List.map_congr_left fun v _ => joinedText_shift _ v)
  | .list items, hKeeps => by
    simp only [Expr.eval]
    refine (inStep_evalAll hFollows scope items hKeeps).bind fun values => inStep_pure ?_
    rw [Value.shift, shiftItems_eq_map]
  | .map entries, hKeeps => by
    simp only [Expr.eval]
    exact (inStep_evalEntries hFollows scope entries hKeeps).bind inStep_mapOf

theorem inStep_evalAll (hFollows : Follows near k h h') (scope : Scope) :
    ∀ es : List Expr, Expr.allKeep plain es = true →
      InStep near (List.map (Value.shift k)) (evalAll h scope es)
        (evalAll h' (shiftNamed k scope) es)
  | [], _ => by
    simp only [evalAll]
    exact inStep_pure rfl
  | e :: rest, hKeeps => by
    simp only [Expr.allKeep, Bool.and_eq_true] at hKeeps
    simp only [evalAll]
    refine (inStep_eval hFollows scope e hKeeps.1).bind fun v => ?_
    exact (inStep_evalAll hFollows scope rest hKeeps.2).bind fun values => inStep_pure rfl

theorem inStep_evalNamed (hFollows : Follows near k h h') (scope : Scope) :
    ∀ named : List (String × Expr), Expr.allNamedKeep plain named = true →
      InStep near (shiftNamed k) (evalNamed h scope named) (evalNamed h' (shiftNamed k scope) named)
  | [], _ => by
    simp only [evalNamed]
    exact inStep_pure rfl
  | (word, e) :: rest, hKeeps => by
    simp only [Expr.allNamedKeep, Bool.and_eq_true] at hKeeps
    simp only [evalNamed]
    refine (inStep_eval hFollows scope e hKeeps.1.2).bind fun v => ?_
    exact (inStep_evalNamed hFollows scope rest hKeeps.2).bind fun bound => inStep_pure rfl

theorem inStep_evalEntries (hFollows : Follows near k h h') (scope : Scope) :
    ∀ entries : List (Expr × Expr), Expr.allEntriesKeep plain entries = true →
      InStep near (Bindings.shift k) (evalEntries h scope entries)
        (evalEntries h' (shiftNamed k scope) entries)
  | [], _ => by
    simp only [evalEntries]
    exact inStep_pure rfl
  | (key, e) :: rest, hKeeps => by
    simp only [Expr.allEntriesKeep, Bool.and_eq_true] at hKeeps
    simp only [evalEntries]
    refine (inStep_eval hFollows scope key hKeeps.1.1).bind fun first => ?_
    refine (inStep_eval hFollows scope e hKeeps.1.2).bind fun v => ?_
    exact (inStep_evalEntries hFollows scope rest hKeeps.2).bind fun found => inStep_pure rfl

end

theorem inStep_loop {name : String} {run run' : Scope → SiteM Scope}
    (hRun : ∀ inner, InStep near (shiftNamed k) (run inner) (run' (shiftNamed k inner)))
    (dialect : Dialect) (scope : Scope) (elements : List Value) :
    InStep near (shiftNamed k) (loop dialect name run scope elements)
      (loop dialect name run' (shiftNamed k scope) (elements.map (Value.shift k))) := by
  cases dialect with
  | script =>
    unfold loop
    dsimp only
    induction elements generalizing scope with
    | nil => exact inStep_pure rfl
    | cons v rest ih =>
      simp only [List.map_cons, List.foldlM_cons]
      rw [insert_shiftNamed]
      exact (hRun _).bind fun inner => ih inner
  | braces =>
    unfold loop
    dsimp only
    refine InStep.bind (g := id) ?_ fun _ => inStep_pure rfl
    rw [List.length_map, List.zipIdx_map]
    -- every round starts from the scope before the loop
    have hRounds : ∀ pairs : List (Value × Nat),
        InStep near id
          (forIn pairs PUnit.unit fun pair _ => do
            let _ ← run ((scope.insert counterName (counter (pair.2 + 1) elements.length)).insert
              name pair.1)
            pure (ForInStep.yield PUnit.unit))
          (forIn (pairs.map (Prod.map (Value.shift k) id)) PUnit.unit fun pair _ => do
            let _ ← run' (((shiftNamed k scope).insert counterName
              (counter (pair.2 + 1) elements.length)).insert name pair.1)
            pure (ForInStep.yield PUnit.unit)) := by
      intro pairs
      induction pairs with
      | nil => exact inStep_pure rfl
      | cons pair rest ih =>
        simp only [List.map_cons, List.forIn_cons, bind_assoc, pure_bind]
        have hCounter : (counter (pair.2 + 1) elements.length).shift k
            = counter (pair.2 + 1) elements.length := rfl
        have hStart := hRun ((scope.insert counterName
          (counter (pair.2 + 1) elements.length)).insert name pair.1)
        rw [← insert_shiftNamed, ← insert_shiftNamed, hCounter] at hStart
        exact hStart.bind fun _ => ih
    exact hRounds elements.zipIdx

mutual

theorem inStep_item (hFollows : Follows near k h h') :
    ∀ (item : Item) (scope : Scope), item.keeps plain = true →
      InStep near (shiftNamed k) (item.run h scope) (item.run h' (shiftNamed k scope))
  | .text s, scope, _ => by
    simp only [Item.run]
    exact (hFollows.write s).bind fun _ => inStep_pure rfl
  | .emit e, scope, hKeeps => by
    simp only [Item.keeps, plain, Bool.or_false] at hKeeps
    simp only [Item.run]
    refine (inStep_eval hFollows scope e hKeeps).bind fun v => ?_
    rw [outputText_shift]
    exact (hFollows.write _).bind fun _ => inStep_pure rfl
  | .bind name e, scope, hKeeps => by
    simp only [Item.run]
    refine (inStep_eval hFollows scope e hKeeps).bind fun v => inStep_pure ?_
    exact insert_shiftNamed k scope name v
  | .forget names, scope, _ => by
    simp only [Item.run]
    exact inStep_pure (foldl_erase_shiftNamed names scope)
  | .each name source items, scope, hKeeps => by
    simp only [Item.keeps, Bool.and_eq_true] at hKeeps
    simp only [Item.run, hFollows.dialect]
    refine (inStep_eval hFollows scope source hKeeps.1).bind fun v => ?_
    rw [elements?_shift]
    cases v.elements? with
    | none => exact inStep_throw _ _
    | some elements =>
      exact inStep_loop (fun inner => inStep_runAll hFollows items inner hKeeps.2) _ scope elements
  | .branch arms otherwise, scope, hKeeps => by
    simp only [Item.keeps, Bool.and_eq_true] at hKeeps
    simp only [Item.run]
    exact inStep_runArms hFollows arms scope hKeeps.1
      (inStep_runAll hFollows otherwise scope hKeeps.2)

/-- A body whose literals are data runs in step with itself on moved values. -/
theorem inStep_runAll (hFollows : Follows near k h h') :
    ∀ (items : List Item) (scope : Scope), Item.allKeep plain items = true →
      InStep near (shiftNamed k) (runAll h scope items) (runAll h' (shiftNamed k scope) items)
  | [], scope, _ => by
    simp only [runAll]
    exact inStep_pure rfl
  | item :: rest, scope, hKeeps => by
    simp only [Item.allKeep, Bool.and_eq_true] at hKeeps
    simp only [runAll]
    refine (inStep_item hFollows item scope hKeeps.1).bind fun next => ?_
    exact inStep_runAll hFollows rest next hKeeps.2

theorem inStep_runArms (hFollows : Follows near k h h') :
    ∀ (arms : List (Expr × List Item)) (scope : Scope) {otherwise otherwise' : SiteM Scope},
      Item.allArmsKeep plain arms = true → InStep near (shiftNamed k) otherwise otherwise' →
        InStep near (shiftNamed k) (runArms h scope otherwise arms)
          (runArms h' (shiftNamed k scope) otherwise' arms)
  | [], scope, otherwise, otherwise', _, hOtherwise => by
    simp only [runArms]
    exact hOtherwise
  | (condition, items) :: rest, scope, otherwise, otherwise', hKeeps, hOtherwise => by
    simp only [Item.allArmsKeep, Bool.and_eq_true] at hKeeps
    simp only [runArms]
    refine (inStep_eval hFollows scope condition hKeeps.1.1).bind fun v => ?_
    rw [isTrue_shift]
    split
    · exact inStep_runAll hFollows items scope hKeeps.1.2
    · exact inStep_runArms hFollows rest scope hKeeps.2 hOtherwise

end

end Bodies

end Transparency

end PageBlocks
