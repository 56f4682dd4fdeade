import PageBlocks.Body.Evaluation
import PageBlocks.Proofs.Bodies
import PageBlocks.Proofs.Running

/-!
# Guarded runs

Two handlers may keep different kinds of states. If what they do for each call and each piece of
output is related, and the relation respects doing nothing, failing and doing one thing after
another (`Link`), then the runs of every body against them are related (`Link.runAll`), by one
induction over the syntax of bodies.

Functions are bound to pages, and a function of one page can be handed to the body of another one.
A guard says whose functions the body of a page may call. Preparing pages under a guard refuses all
other calls (`prepareWhere`). As long as no call is refused, a guarded run is the run without the
guard (`prepareWhere_sameUnless`), and so is whatever makes use of prepared pages (`Prepares`).
-/

set_option autoImplicit false

namespace PageBlocks

open PageBlocks.Body PageBlocks.Running

/-- A relation between computations over two kinds of states that respects their sequencing. -/
structure Link (σ τ : Type) where
  holds : ∀ {α : Type}, Run σ α → Run τ α → Prop
  pure : ∀ {α : Type} (a : α), holds (Pure.pure a) (Pure.pure a)
  throw : ∀ {α : Type} (fault : Fault), holds (MonadExcept.throw fault : Run σ α)
    (MonadExcept.throw fault)
  bind : ∀ {α β : Type} {x : Run σ α} {y : Run τ α} {f : α → Run σ β} {g : α → Run τ β},
    holds x y → (∀ a, holds (f a) (g a)) → holds (x >>= f) (y >>= g)

namespace Link

variable {σ τ : Type} {α β : Type}

theorem map (L : Link σ τ) {x : Run σ α} {y : Run τ α} (h : L.holds x y) (f : α → β) :
    L.holds (f <$> x) (f <$> y) := by
  rw [map_eq_pure_bind, map_eq_pure_bind]
  exact L.bind h fun a => L.pure (f a)

/-- Two handlers that do related things for the same language. -/
structure Handles (L : Link σ τ) (h : Handler (Run σ)) (h' : Handler (Run τ)) : Prop where
  dialect : h'.dialect = h.dialect
  call : ∀ (callee : Value) (arguments : List Value) (named : List (String × Value)),
    L.holds (h.call callee arguments named) (h'.call callee arguments named)
  write : ∀ s : String, L.holds (h.write s) (h'.write s)

variable {L : Link σ τ} {h : Handler (Run σ)} {h' : Handler (Run τ)}

theorem mapOf (L : Link σ τ) (entries : List (Value × Value)) :
    L.holds (Body.mapOf entries) (Body.mapOf entries) := by
  unfold Body.mapOf
  split
  · exact L.pure _
  · exact L.throw _

/-! ## Expressions -/

mutual

/-- The values of an expression are computed in related ways. -/
theorem eval (hHandles : L.Handles h h') (scope : Scope) :
    ∀ e : Expr, L.holds (e.eval h scope) (e.eval h' scope)
  | .literal v => by
    simp only [Expr.eval]
    exact L.pure v
  | .name s => by
    simp only [Expr.eval, hHandles.dialect]
    exact L.pure _
  | .call f arguments named => by
    simp only [Expr.eval, hHandles.dialect]
    split
    · exact L.throw _
    · refine L.bind (eval hHandles scope f) fun callee => ?_
      refine L.bind (evalAll hHandles scope arguments) fun values => ?_
      refine L.bind (evalNamed hHandles scope named) fun bound => ?_
      split
      · exact L.throw _
      · exact hHandles.call callee values bound
  | .join parts => by
    simp only [Expr.eval, hHandles.dialect]
    exact L.bind (evalAll hHandles scope parts) fun values => L.pure _
  | .list items => by
    simp only [Expr.eval]
    exact L.bind (evalAll hHandles scope items) fun values => L.pure _
  | .map entries => by
    simp only [Expr.eval]
    exact L.bind (evalEntries hHandles scope entries) fun found => L.mapOf found

theorem evalAll (hHandles : L.Handles h h') (scope : Scope) :
    ∀ es : List Expr, L.holds (Body.evalAll h scope es) (Body.evalAll h' scope es)
  | [] => by
    simp only [Body.evalAll]
    exact L.pure []
  | e :: rest => by
    simp only [Body.evalAll]
    refine L.bind (eval hHandles scope e) fun v => ?_
    exact L.bind (evalAll hHandles scope rest) fun values => L.pure _

theorem evalNamed (hHandles : L.Handles h h') (scope : Scope) :
    ∀ named : List (String × Expr),
      L.holds (Body.evalNamed h scope named) (Body.evalNamed h' scope named)
  | [] => by
    simp only [Body.evalNamed]
    exact L.pure []
  | (word, e) :: rest => by
    simp only [Body.evalNamed]
    refine L.bind (eval hHandles scope e) fun v => ?_
    exact L.bind (evalNamed hHandles scope rest) fun bound => L.pure _

theorem evalEntries (hHandles : L.Handles h h') (scope : Scope) :
    ∀ entries : List (Expr × Expr),
      L.holds (Body.evalEntries h scope entries) (Body.evalEntries h' scope entries)
  | [] => by
    simp only [Body.evalEntries]
    exact L.pure []
  | (k, e) :: rest => by
    simp only [Body.evalEntries]
    refine L.bind (eval hHandles scope k) fun key => ?_
    refine L.bind (eval hHandles scope e) fun v => ?_
    exact L.bind (evalEntries hHandles scope rest) fun found => L.pure _

end

/-! ## Items -/

theorem loop {dialect : Dialect} {name : String} {run : Scope → Run σ Scope}
    {run' : Scope → Run τ Scope} (hRun : ∀ scope, L.holds (run scope) (run' scope)) (scope : Scope)
    (elements : List Value) :
    L.holds (Body.loop dialect name run scope elements)
      (Body.loop dialect name run' scope elements) := by
  cases dialect with
  | script =>
    show L.holds (elements.foldlM (fun inner v => run (inner.insert name v)) scope)
      (elements.foldlM (fun inner v => run' (inner.insert name v)) scope)
    induction elements generalizing scope with
    | nil => exact L.pure scope
    | cons v rest ih =>
      rw [List.foldlM_cons, List.foldlM_cons]
      exact L.bind (hRun _) fun inner => ih inner
  | braces =>
    unfold Body.loop
    dsimp only
    refine L.bind ?_ fun _ => L.pure scope
    induction elements.zipIdx with
    | nil => exact L.pure PUnit.unit
    | cons pair rest ih =>
      rw [List.forIn_cons, List.forIn_cons, bind_assoc, bind_assoc]
      refine L.bind (hRun _) fun _ => ?_
      rw [pure_bind, pure_bind]
      exact ih

mutual

theorem item (hHandles : L.Handles h h') :
    ∀ (item : Item) (scope : Scope), L.holds (item.run h scope) (item.run h' scope)
  | .text s, scope => by
    simp only [Item.run]
    exact L.bind (hHandles.write s) fun _ => L.pure scope
  | .emit e, scope => by
    simp only [Item.run]
    refine L.bind (eval hHandles scope e) fun v => ?_
    exact L.bind (hHandles.write _) fun _ => L.pure scope
  | .bind name e, scope => by
    simp only [Item.run]
    exact L.bind (eval hHandles scope e) fun v => L.pure _
  | .forget names, scope => by
    simp only [Item.run]
    exact L.pure _
  | .each name source items, scope => by
    simp only [Item.run, hHandles.dialect]
    refine L.bind (eval hHandles scope source) fun v => ?_
    split
    · exact loop (fun inner => runAll hHandles items inner) scope _
    · exact L.throw _
  | .branch arms otherwise, scope => by
    simp only [Item.run]
    exact runArms hHandles arms scope (runAll hHandles otherwise scope)

/-- Every body runs in related ways. -/
theorem runAll (hHandles : L.Handles h h') :
    ∀ (items : List Item) (scope : Scope),
      L.holds (Body.runAll h scope items) (Body.runAll h' scope items)
  | [], scope => by
    simp only [Body.runAll]
    exact L.pure scope
  | first :: rest, scope => by
    simp only [Body.runAll]
    exact L.bind (item hHandles first scope) fun next => runAll hHandles rest next

theorem runArms (hHandles : L.Handles h h') :
    ∀ (arms : List (Expr × List Item)) (scope : Scope) {otherwise : Run σ Scope}
      {otherwise' : Run τ Scope}, L.holds otherwise otherwise' →
        L.holds (Body.runArms h scope otherwise arms) (Body.runArms h' scope otherwise' arms)
  | [], scope, otherwise, otherwise', hOtherwise => by
    simp only [Body.runArms]
    exact hOtherwise
  | (condition, items) :: rest, scope, otherwise, otherwise', hOtherwise => by
    simp only [Body.runArms]
    refine L.bind (eval hHandles scope condition) fun v => ?_
    split
    · exact runAll hHandles items scope
    · exact runArms hHandles rest scope hOtherwise

end

end Link

end PageBlocks

namespace PageBlocks.Guards

open PageBlocks.Body PageBlocks.Cache PageBlocks.Running PageBlocks.Site

/-! ## Guards -/

/-- Whether the body of a page may, in a world, call the functions of another one. -/
abbrev Guard := Nat → World → Nat → Bool

/-- The page that a function is bound to. -/
def ownerOf : Value → Option Nat
  | .directive q _ | .inserter q _ => some q
  | _ => none

/-- Whether a guard lets the body of a page call a value. -/
def Guard.allows (guard : Guard) (p : Nat) (w : World) (callee : Value) : Bool :=
  (ownerOf callee).all (guard p w)

/-- Run the body of a page, given what its calls do. -/
def bodyWith (call : Value → List Value → List (String × Value) → SiteM Value) (p : Nat) :
    SiteM Unit := do
  onDraft p Draft.resetCaptures
  modify fun w => { w with executed := w.executed + 1 }
  let page ← page p
  let handler : Handler SiteM :=
    { dialect := page.context.dialect
      call
      write := fun s => onDraft p (Draft.write (.text s)) }
  let items ← bodyOf page
  let _ ← runAll handler (← check (scopeOf p page)) items
  onDraft p Draft.finish

theorem runBody_eq (prepare : Nat → SiteM Unit) (p : Nat) :
    runBody prepare p = bodyWith (call prepare) p := rfl

/-- Call a value that the body of a page may call, and refuse the call of another one. -/
def guardedCall (refusal : Fault) (guard : Guard) (p : Nat) (prepare : Nat → SiteM Unit)
    (callee : Value) (arguments : List Value) (named : List (String × Value)) : SiteM Value := do
  if guard.allows p (← get) callee then call prepare callee arguments named else throw refusal

/-- Prepare a page under a guard, to a depth. -/
def prepareWhere (refusal : Fault) (guard : Guard) : Nat → Nat → SiteM Unit
  | 0, _ => throw (.host .tooDeep)
  | depth + 1, p => bodyWith (guardedCall refusal guard p (prepareWhere refusal guard depth)) p

/-- A guard that allows everything changes nothing. -/
theorem prepareWhere_all (refusal : Fault) (depth : Nat) :
    prepareWhere refusal (fun _ _ _ => true) depth = prepareFrom depth := by
  have hAllows : ∀ p w callee, Guard.allows (fun _ _ _ => true) p w callee = true := by
    intro p w callee
    cases h : ownerOf callee <;> simp [Guard.allows, h]
  induction depth with
  | zero => rfl
  | succ depth ih =>
    funext p
    have hCall : guardedCall refusal (fun _ _ _ => true) p (prepareFrom depth)
        = call (prepareFrom depth) := by
      funext callee arguments named
      unfold guardedCall
      simp only [hAllows, if_true]
      rfl
    rw [prepareWhere, ih, hCall, prepareFrom, runBody_eq]

/-! ## Preparing in two ways -/

section Linked

variable {L : Link World World} {prepare prepare' : Nat → SiteM Unit} {p : Nat}

/-- What is related to itself, and so are two ways of preparing pages. -/
structure Prepares (L : Link World World) (prepare prepare' : Nat → SiteM Unit) : Prop where
  refl : ∀ {α : Type} (x : SiteM α), L.holds x x
  prepare : ∀ p, L.holds (prepare p) (prepare' p)

namespace Prepares

theorem renderPage (h : Prepares L prepare prepare') (p : Nat) :
    L.holds (Site.renderPage prepare p) (Site.renderPage prepare' p) :=
  L.bind (h.prepare p) fun _ => h.refl _

theorem includePage (h : Prepares L prepare prepare') (name vars : Value) :
    L.holds (Site.includePage prepare p name vars) (Site.includePage prepare' p name vars) := by
  refine L.bind (h.refl _) fun other => ?_
  exact L.bind (h.renderPage other) fun text => h.refl _

theorem extend (h : Prepares L prepare prepare') (name : Value) :
    L.holds (Site.extend prepare p name) (Site.extend prepare' p name) := by
  refine L.bind (h.refl _) fun page => L.bind (h.refl _) fun place => ?_
  dsimp only
  split
  · exact h.refl _
  · refine L.bind (h.refl _) fun base => L.bind (h.refl _) fun _ => ?_
    exact L.bind (h.prepare base) fun _ => h.refl _

theorem remembered (h : Prepares L prepare prepare') {cache : Ref} {key : String}
    {lifetime : Value} {x y : SiteM String} (hCompute : L.holds x y) :
    L.holds (Site.remembered cache key lifetime x) (Site.remembered cache key lifetime y) := by
  refine L.bind (h.refl _) fun found => ?_
  cases found with
  | some text => exact L.pure text
  | none => exact L.bind hCompute fun text => h.refl _

theorem cachedInclude (h : Prepares L prepare prepare') (name vars lifetime : Value) :
    L.holds (Site.cachedInclude prepare p name vars lifetime)
      (Site.cachedInclude prepare' p name vars lifetime) := by
  refine L.bind (h.refl _) fun page => L.bind (h.refl _) fun cache => ?_
  refine L.bind (h.refl _) fun other => L.bind (h.refl _) fun found => ?_
  exact L.bind (h.remembered (h.renderPage other)) fun text => h.refl _

theorem render (h : Prepares L prepare prepare') (name vars : Value) (paths : List String)
    (useGlobals : Bool) :
    L.holds (Site.render prepare name vars paths useGlobals)
      (Site.render prepare' name vars paths useGlobals) := by
  have hAnew : ∀ p request, L.holds (renderAnew prepare p request)
      (renderAnew prepare' p request) :=
    fun p request => L.bind (h.renderPage p) fun output => h.refl _
  refine L.bind (h.refl _) fun w => L.bind (h.refl _) fun place => ?_
  refine L.bind (h.refl _) fun given => L.bind (h.refl _) fun p => ?_
  split
  · refine L.bind (h.refl _) fun page => L.bind (h.refl _) fun compiled => ?_
    cases compiled with
    | some text => exact h.refl _
    | none =>
      refine L.bind (h.refl _) fun found => ?_
      cases found with
      | some output => exact h.refl _
      | none => exact hAnew p _
  · exact hAnew p _

theorem answer (h : Prepares L prepare prepare') (r : Request) :
    L.holds (Site.answer prepare r) (Site.answer prepare' r) := by
  cases r with
  | render name vars paths useGlobals => exact L.map (h.render name _ paths useGlobals) _
  | _ => exact h.refl _

theorem carryOut (h : Prepares L prepare prepare') (directive : Directive) (values : List Value) :
    L.holds (Site.carryOut prepare p directive values)
      (Site.carryOut prepare' p directive values) := by
  rw [carryOut.eq_def prepare]
  split
  case h_5 => exact L.bind (h.extend _) fun _ => h.refl _
  case h_6 => exact L.map (h.includePage _ _) _
  case h_13 => exact L.map (h.cachedInclude _ _ _) _
  case h_29 => exact L.map (h.answer _) _
  all_goals first | exact h.refl _ | (rw [Site.carryOut] <;> first | exact h.refl _ | assumption)

theorem callDirective (h : Prepares L prepare prepare') (directive : Directive)
    (arguments : List Value) (named : Table String Value) :
    L.holds (Site.callDirective prepare p directive arguments named)
      (Site.callDirective prepare' p directive arguments named) := by
  unfold Site.callDirective
  split
  · exact h.refl _
  · exact h.refl _
  · exact L.bind (h.refl _) fun values => h.carryOut _ values

theorem callInserter (h : Prepares L prepare prepare') (name : Value) (arguments : List Value)
    (named : Table String Value) :
    L.holds (Site.callInserter prepare p name arguments named)
      (Site.callInserter prepare' p name arguments named) := by
  have hRest : ∀ (vars : Value) (left : Table String Value), L.holds (do
      let given ← check (Bindings.ofMap vars)
      let more := left.map fun binding => (Value.text binding.1, binding.2)
      Value.text <$> Site.includePage prepare p name (.map (Table.merge given more))) (do
      let given ← check (Bindings.ofMap vars)
      let more := left.map fun binding => (Value.text binding.1, binding.2)
      Value.text <$> Site.includePage prepare' p name (.map (Table.merge given more))) :=
    fun vars left => L.bind (h.refl _) fun given => L.map (h.includePage _ _) _
  unfold Site.callInserter
  generalize named.get? "variables" = byName
  -- the variables come as one mapping or by name, and not both
  match arguments, byName with
  | [], none => exact L.bind (h.refl _) fun ⟨vars, left⟩ => hRest vars left
  | [], some v => exact L.bind (h.refl _) fun ⟨vars, left⟩ => hRest vars left
  | [v], none => exact L.bind (h.refl _) fun ⟨vars, left⟩ => hRest vars left
  | [_], some _ => exact h.refl _
  | _ :: _ :: _, none => exact h.refl _
  | _ :: _ :: _, some _ => exact h.refl _

theorem call (h : Prepares L prepare prepare') (callee : Value) (arguments : List Value)
    (named : List (String × Value)) :
    L.holds (Site.call prepare callee arguments named)
      (Site.call prepare' callee arguments named) := by
  cases callee with
  | directive q name =>
    refine L.bind (h.refl _) fun page => ?_
    split
    · exact h.callDirective _ _ _
    · exact h.refl _
  | inserter q name => exact h.callInserter _ _ _
  | _ => exact h.refl _

end Prepares

end Linked

/-! ## Refusals -/

section Refusals

variable {refusal : Fault} {guard : Guard} {α : Type} {w : World}

/-- One computation does what another one does, unless it ends in a refusal. -/
def sameUnless (refusal : Fault) : Link World World where
  holds x y := ∀ w, (x.run w).1 = .error refusal ∨ y.run w = x.run w
  pure _ _ := .inr rfl
  throw _ _ := .inr rfl
  bind {α β x y f g} h hNext w := by
    rcases h w with hRefused | hSame
    · rcases hRun : x.run w with ⟨fault | a, v⟩
      · rw [hRun] at hRefused
        cases hRefused
        exact .inl (congrArg Prod.fst (run_bind_of_error hRun f))
      · rw [hRun] at hRefused
        cases hRefused
    · rcases hRun : x.run w with ⟨fault | a, v⟩
      · rw [hRun] at hSame
        exact .inr ((run_bind_of_error hSame g).trans (run_bind_of_error hRun f).symm)
      · rw [hRun] at hSame
        rw [run_bind_of_ok hRun, run_bind_of_ok hSame]
        exact hNext a v

/-- A run that comes to an end was not refused. -/
theorem eq_ok_of_sameUnless {x y : SiteM α} {a : α} {w' : World}
    (h : (sameUnless refusal).holds x y) (hRun : x.run w = (.ok a, w')) :
    y.run w = (.ok a, w') := by
  rcases h w with hRefused | hSame
  · rw [hRun] at hRefused
    cases hRefused
  · rw [hSame, hRun]

theorem prepares_sameUnless {prepare prepare' : Nat → SiteM Unit}
    (h : ∀ p, (sameUnless refusal).holds (prepare p) (prepare' p)) :
    Prepares (sameUnless refusal) prepare prepare' :=
  ⟨fun _ _ => .inr rfl, h⟩

/-- A guarded body does what the body does, unless a call is refused. -/
theorem bodyWith_sameUnless {prepare prepare' : Nat → SiteM Unit}
    (h : ∀ p, (sameUnless refusal).holds (prepare p) (prepare' p)) (p : Nat) :
    (sameUnless refusal).holds (bodyWith (guardedCall refusal guard p prepare) p)
      (runBody prepare' p) := by
  have hPrepares := prepares_sameUnless h
  have hCall : ∀ callee arguments named, (sameUnless refusal).holds
      (guardedCall refusal guard p prepare callee arguments named)
      (call prepare' callee arguments named) := by
    intro callee arguments named w
    unfold guardedCall
    rw [run_bind_of_ok (run_get w)]
    split
    · exact hPrepares.call callee arguments named w
    · exact .inl rfl
  rw [runBody_eq]
  refine (sameUnless refusal).bind (hPrepares.refl _) fun _ => ?_
  refine (sameUnless refusal).bind (hPrepares.refl _) fun _ => ?_
  refine (sameUnless refusal).bind (hPrepares.refl _) fun page => ?_
  refine (sameUnless refusal).bind (hPrepares.refl _) fun items => ?_
  refine (sameUnless refusal).bind (hPrepares.refl _) fun scope => ?_
  have hHandles : (sameUnless refusal).Handles
      { dialect := page.context.dialect
        call := guardedCall refusal guard p prepare
        write := fun s => onDraft p (Draft.write (.text s)) }
      { dialect := page.context.dialect
        call := call prepare'
        write := fun s => onDraft p (Draft.write (.text s)) } :=
    ⟨rfl, hCall, fun s => hPrepares.refl _⟩
  exact (sameUnless refusal).bind (Link.runAll hHandles items scope) fun _ => hPrepares.refl _

/-- Preparing a page under a guard is preparing it, unless a call is refused. -/
theorem prepareWhere_sameUnless (refusal : Fault) (guard : Guard) (depth p : Nat) :
    (sameUnless refusal).holds (prepareWhere refusal guard depth p) (prepareFrom depth p) := by
  induction depth generalizing p with
  | zero => exact (sameUnless refusal).throw _
  | succ depth ih => exact bodyWith_sameUnless ih p

end Refusals

end PageBlocks.Guards
