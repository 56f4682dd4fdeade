import PageBlocks.Proofs.Transparency.Pages
import PageBlocks.Site.Run

/-!
# Bodies behind other pages

Whatever the body of a page calls under the built-in directives is in step on a site and on the same
site behind further pages (`inStep_call`), and so is preparing a page, to whatever depth that nests
(`inStep_prepare`).
-/

set_option autoImplicit false

namespace PageBlocks.Transparency

open PageBlocks.Body PageBlocks.Cache PageBlocks.Running PageBlocks.Site PageBlocks.Upkeep

section Calls

variable {u₀ : World} {k e : Nat} {cache : Option Ref}

/-! ## Options and fragments -/

theorem toOption_modeOf_shift (v : Value) :
    (modeOf (v.shift k)).toOption = (modeOf v).toOption := by
  cases v <;> rfl

theorem inStep_setOption (p : Nat) (option value : Value) :
    InStep (Near u₀ k e cache) id (setOption p option value)
      (setOption (p + k) (option.shift k) (value.shift k)) := by
  have hMode :
      InStep (Near u₀ k e cache) id (setMode p value) (setMode (p + k) (value.shift k)) := by
    unfold setMode
    refine InStep.bind (g := id) (inStep_check_of_toOption ?_) fun mode => ?_
    · rw [toOption_modeOf_shift, Option.map_id]
      rfl
    · refine inStep_updatePage ?_ ?_ p
      · exact fun _ => rfl
      · exact fun _ => rfl
  cases option with
  | text s =>
    simp only [Value.shift, setOption]
    split
    · exact hMode
    · exact inStep_throw _ _
  | _ => exact inStep_throw _ _

theorem inStep_setVariable (p : Nat) (name value : Value) :
    InStep (Near u₀ k e cache) id (setVariable p name value)
      (setVariable (p + k) (name.shift k) (value.shift k)) := by
  unfold setVariable
  rw [isKey_shift]
  split
  · refine inStep_updatePage ?_ ?_ p
    · intro page
      have hVars : Table.insert (page.vars.shift k) (name.shift k) (value.shift k)
          = Bindings.shift k (page.vars.insert name value) :=
        insert_shift k (Value.shift k) page.vars name value
      exact congrArg (fun vars => { page.shift k e cache with vars }) hVars
    · exact fun _ => rfl
  · exact inStep_throw _ _

theorem payload?_shift (kind : Value) (arguments : List Value) :
    Fragment.payload? (kind.shift k) (arguments.map (Value.shift k))
      = Fragment.payload? kind arguments := by
  have hWritten := write_shift k Json.Style.payload (.list [kind, .list arguments])
  simp only [Value.shift, Value.shiftItems, shiftItems_eq_map] at hWritten
  rw [Fragment.payload?, hWritten, Fragment.payload?]

/-- A tag does not depend on the numbers of the pages that its arguments know. -/
theorem toOption_encode_shift (registry : Fragment.Registry) (kind : Value)
    (arguments : List Value) :
    (registry.encode (kind.shift k) (arguments.map (Value.shift k))).toOption
      = (registry.encode kind arguments).toOption := by
  have hFind : registry.find? (kind.shift k) = registry.find? kind := by
    unfold Fragment.Registry.find?
    have hKey := isKey_shift k kind
    cases kind with
    | text s => rfl
    | _ => simp only [Value.shift] at hKey ⊢ <;> rw [hKey]
  unfold Fragment.Registry.encode
  rw [hFind, payload?_shift]
  cases registry.find? kind with
  | error fault => rfl
  | ok found =>
    cases found with
    | none => rfl
    | some registered => cases Fragment.payload? kind arguments <;> rfl

theorem inStep_deferFragment (p : Nat) (kind : Value) (arguments : List Value) :
    InStep (Near u₀ k e cache) (Value.shift k) (deferFragment p kind arguments)
      (deferFragment (p + k) (kind.shift k) (arguments.map (Value.shift k))) := by
  have hTag : InStep (Near u₀ k e cache) id (tagOf p kind arguments)
      (tagOf (p + k) (kind.shift k) (arguments.map (Value.shift k))) := by
    unfold Site.tagOf
    refine (inStep_page p).bind fun page => inStep_check_of_toOption ?_
    have hFragments : (page.shift k e cache).context.fragments = page.context.fragments := rfl
    rw [hFragments, toOption_encode_shift, Option.map_id]
    rfl
  unfold deferFragment
  exact hTag.bind fun tag => (inStep_track p tag).map fun _ => rfl

theorem kindAndArguments_shift (arguments : List Value) (named : Table String Value) :
    kindAndArguments (arguments.map (Value.shift k)) (shiftNamed k named)
      = (kindAndArguments arguments named).map fun found =>
          (found.1.shift k, found.2.map (Value.shift k)) := by
  match arguments, named with
  | [], [] => rfl
  | [], [(name, kind)] =>
    simp only [kindAndArguments, List.map_nil, shiftNamed, List.map_cons]
    split <;> rfl
  | [], _ :: _ :: _ => rfl
  | _ :: _, [] => rfl
  | _ :: _, _ :: _ => rfl

/-! ## Blocks -/

theorem inStep_currentBlock (p : Nat) :
    InStep (Near u₀ k e cache) (Block.shift k) (currentBlock p) (currentBlock (p + k)) := by
  unfold currentBlock
  refine (inStep_page p).bind fun page => inStep_outlineOf_bind fun o _ => ?_
  dsimp only
  have hBlock : (draftOf (page.shift k e cache) (o.shift k)).outline.block?
      (draftOf (page.shift k e cache) (o.shift k)).current
      = ((draftOf page o).outline.block? (draftOf page o).current).map (Block.shift k) :=
    block?_shift k o _
  rw [hBlock]
  cases (draftOf page o).outline.block? (draftOf page o).current with
  | some b => exact inStep_pure rfl
  | none => exact inStep_throw _ _

theorem inStep_blockOutput (p : Nat) (name : Value) :
    InStep (Near u₀ k e cache) id (blockOutput p name) (blockOutput (p + k) (name.shift k)) := by
  unfold blockOutput
  rw [isKey_shift]
  split
  · exact inStep_throw_bind _ _
  · refine inStep_outlineOf_bind fun o _ => ?_
    rw [find?_shift]
    cases o.find? name with
    | some i => exact inStep_renderBlock p i
    | none => exact inStep_pure rfl

/-- A step of a page's draft that opens a block. -/
theorem inStep_open (p : Nat) (name : Value) (mode : ApplyMode) :
    InStep (Near u₀ k e cache) (Value.shift k) (do
        let _ ← onDraft p (Draft.openBlock name mode)
        return done) (do
        let _ ← onDraft (p + k) (Draft.openBlock (name.shift k) mode)
        return done) :=
  (inStep_onDraft (inStep_openBlock name mode) (lasting_uncached.openBlock name mode) p).bind
    fun _ => inStep_pure rfl

/-! ## Directives -/

variable {prepare prepare' : Nat → SiteM Unit}

/-- The built-in directives that take a fixed list of parameters. -/
def isListed : Directive → Bool
  | .openBlock | .openBefore | .openBehind | .closeBlock | .extendPage | .includePage
  | .blockOutput | .parentContent | .inserter | .setVariable | .setOption => true
  | _ => false

theorem inStep_carryOut
    (hPrepare : ∀ p, InStep (Near u₀ k e cache) id (prepare p) (prepare' (p + k)))
    (p : Nat) {directive : Directive} (hListed : isListed directive = true) (values : List Value) :
    InStep (Near u₀ k e cache) (Value.shift k) (carryOut prepare p directive values)
      (carryOut prepare' (p + k) directive (values.map (Value.shift k))) := by
  have hSeq : ∀ {x x' : SiteM Unit}, InStep (Near u₀ k e cache) id x x' →
      InStep (Near u₀ k e cache) (Value.shift k) (do x; return done) (do x'; return done) :=
    fun h => h.bind fun _ => inStep_pure rfl
  cases directive with
  | openBlock =>
    match values with
    | [name] => exact inStep_open p name .replace
    | [] | _ :: _ :: _ => exact inStep_throw _ _
  | openBefore =>
    match values with
    | [name] => exact inStep_open p name .prepend
    | [] | _ :: _ :: _ => exact inStep_throw _ _
  | openBehind =>
    match values with
    | [name] => exact inStep_open p name .append
    | [] | _ :: _ :: _ => exact inStep_throw _ _
  | closeBlock =>
    cases values with
    | nil => exact hSeq (inStep_onDraft inStep_close lasting_uncached.close p)
    | cons _ _ => exact inStep_throw _ _
  | extendPage =>
    match values with
    | [name] => exact hSeq (inStep_extend hPrepare p name)
    | [] | _ :: _ :: _ => exact inStep_throw _ _
  | includePage =>
    match values with
    | [name, vars] => exact (inStep_includePage hPrepare p name vars).map fun _ => rfl
    | [] | [_] | _ :: _ :: _ :: _ => exact inStep_throw _ _
  | blockOutput =>
    match values with
    | [name] => exact (inStep_blockOutput p name).map fun _ => rfl
    | [] | _ :: _ :: _ => exact inStep_throw _ _
  | parentContent =>
    cases values with
    | nil => exact (inStep_currentBlock p).bind fun b => inStep_pure rfl
    | cons _ _ => exact inStep_throw _ _
  | inserter =>
    match values with
    | [name] => exact inStep_pure rfl
    | [] | _ :: _ :: _ => exact inStep_throw _ _
  | setVariable =>
    match values with
    | [name, value] => exact hSeq (inStep_setVariable p name value)
    | [] | [_] | _ :: _ :: _ :: _ => exact inStep_throw _ _
  | setOption =>
    match values with
    | [option, value] => exact hSeq (inStep_setOption p option value)
    | [] | [_] | _ :: _ :: _ :: _ => exact inStep_throw _ _
  | _ => cases hListed

/-- The defaults of parameters know no pages. -/
theorem shift_default {directive : Directive} (hListed : isListed directive = true)
    (p : Parameter) (hMem : p ∈ parameters directive) (v : Value) (hDefault : p.default = some v) :
    v.shift k = v := by
  cases directive with
  | includePage =>
    rcases List.mem_cons.mp hMem with rfl | hMem
    · cases hDefault
    · cases List.mem_singleton.mp hMem
      cases hDefault
      rfl
  | setVariable | setOption =>
    rcases List.mem_cons.mp hMem with rfl | hMem
    · cases hDefault
    · cases List.mem_singleton.mp hMem
      cases hDefault
  | closeBlock | parentContent => exact absurd hMem List.not_mem_nil
  | openBlock | openBefore | openBehind | extendPage | blockOutput | inserter =>
    cases List.mem_singleton.mp hMem
    cases hDefault
  | _ => cases hListed

theorem inStep_callDirective
    (hPrepare : ∀ p, InStep (Near u₀ k e cache) id (prepare p) (prepare' (p + k))) (p : Nat)
    {directive : Directive} (hBuiltIn : isListed directive = true ∨ directive = .deferFragment)
    (arguments : List Value) (named : Table String Value) :
    InStep (Near u₀ k e cache) (Value.shift k) (callDirective prepare p directive arguments named)
      (callDirective prepare' (p + k) directive (arguments.map (Value.shift k))
        (shiftNamed k named)) := by
  rcases hBuiltIn with hListed | rfl
  · have hBind : InStep (Near u₀ k e cache) (Value.shift k) (do
        let values ← check (bindArguments (parameters directive) arguments named)
        carryOut prepare p directive values) (do
        let values ← check (bindArguments (parameters directive)
          (arguments.map (Value.shift k)) (shiftNamed k named))
        carryOut prepare' (p + k) directive values) :=
      (inStep_check (bindArguments_shift k (shift_default hListed) arguments named)).bind
        fun values => inStep_carryOut hPrepare p hListed values
    cases directive with
    | deferFragment => cases hListed
    | bareTag => cases hListed
    | _ => exact hBind
  · exact (inStep_check (kindAndArguments_shift arguments named)).bind fun found =>
      inStep_deferFragment p found.1 found.2

theorem isListed_of_builtIn {name : String} {directive : Directive}
    (h : Directive.builtIn.get? name = some directive) :
    isListed directive = true ∨ directive = .deferFragment := by
  have hMem := Table.mem_of_get?_eq_some h
  simp only [Directive.builtIn, List.mem_cons, List.not_mem_nil, or_false, Prod.mk.injEq] at hMem
  rcases hMem with ⟨-, rfl⟩ | ⟨-, rfl⟩ | ⟨-, rfl⟩ | ⟨-, rfl⟩ | ⟨-, rfl⟩ | ⟨-, rfl⟩ | ⟨-, rfl⟩
    | ⟨-, rfl⟩ | ⟨-, rfl⟩ | ⟨-, rfl⟩ | ⟨-, rfl⟩ | ⟨-, rfl⟩ <;>
      first | exact .inl rfl | exact .inr rfl

/-! ## Inserters -/

/-- The mapping of variables that an inserter is called with, and its other named arguments. -/
def insertedVars (arguments : List Value) (named : Table String Value) :
    Except Fault (Value × Table String Value) :=
  match arguments, named.get? "variables" with
  | [], none => .ok (.null, named)
  | [], some v => .ok (v, named.erase "variables")
  | [v], none => .ok (v, named)
  | _, _ => .error (.host .type)

theorem callInserter_eq (p : Nat) (name : Value) (arguments : List Value)
    (named : Table String Value) :
    callInserter prepare p name arguments named = (do
      let found ← check (insertedVars arguments named)
      let given ← check (Bindings.ofMap found.1)
      Value.text <$> includePage prepare p name (.map (Table.merge given
        (found.2.map fun binding => (Value.text binding.1, binding.2))))) := by
  unfold callInserter insertedVars
  split <;> simp only [*] <;> rfl

theorem insertedVars_shift (arguments : List Value) (named : Table String Value) :
    insertedVars (arguments.map (Value.shift k)) (shiftNamed k named)
      = (insertedVars arguments named).map fun found =>
          (found.1.shift k, shiftNamed k found.2) := by
  unfold insertedVars
  rw [get?_shiftNamed, erase_shiftNamed]
  cases named.get? "variables" with
  | none => match arguments with | [] | [_] | _ :: _ :: _ => rfl
  | some v => match arguments with | [] | [_] | _ :: _ :: _ => rfl

theorem inStep_callInserter
    (hPrepare : ∀ p, InStep (Near u₀ k e cache) id (prepare p) (prepare' (p + k))) (p : Nat)
    (name : Value) (arguments : List Value) (named : Table String Value) :
    InStep (Near u₀ k e cache) (Value.shift k) (callInserter prepare p name arguments named)
      (callInserter prepare' (p + k) (name.shift k) (arguments.map (Value.shift k))
        (shiftNamed k named)) := by
  rw [callInserter_eq, callInserter_eq]
  refine (inStep_check (insertedVars_shift arguments named)).bind fun found => ?_
  refine (inStep_check (ofMap_shift k found.1)).bind fun given => ?_
  have hVars : Value.map (Table.merge (given.shift k)
      ((shiftNamed k found.2).map fun binding => (Value.text binding.1, binding.2)))
      = (Value.map (Table.merge given
          (found.2.map fun binding => (Value.text binding.1, binding.2)))).shift k := by
    rw [← shift_named, merge_shift, Value.shift, shiftEntries_eq_shift]
  dsimp only
  rw [hVars]
  exact (inStep_includePage hPrepare p name _).map fun _ => rfl

/-! ## Calls -/

theorem inStep_call (hPrepare : ∀ p, InStep (Near u₀ k e cache) id (prepare p) (prepare' (p + k)))
    (callee : Value) (arguments : List Value) (named : List (String × Value)) :
    InStep (Near u₀ k e cache) (Value.shift k) (call prepare callee arguments named)
      (call prepare' (callee.shift k) (arguments.map (Value.shift k)) (shiftNamed k named)) := by
  unfold call
  rw [ofBindings_shiftNamed]
  cases callee with
  | directive p name =>
    refine inStep_page_bind fun w w' page hNear hPage => ?_
    have hDirectives : page.context.directives = Directive.builtIn := hNear.directives p page hPage
    have hSame : (page.shift k e cache).context.directives = page.context.directives := rfl
    rw [hSame, hDirectives]
    cases hFound : Directive.builtIn.get? name with
    | none => exact ends_throw ⟨_, _, rfl, hNear⟩
    | some directive =>
      exact inStep_callDirective hPrepare p (isListed_of_builtIn hFound) arguments _ w w' hNear
  | inserter p name => exact inStep_callInserter hPrepare p name arguments _
  | builtIn f => exact inStep_check (callBuiltIn_shift k arguments _ f)
  | _ => exact inStep_throw _ _

theorem follows_handlerOf
    (hPrepare : ∀ p, InStep (Near u₀ k e cache) id (prepare p) (prepare' (p + k))) (p : Nat)
    (page : Page) :
    Follows (Near u₀ k e cache) k (handlerOf prepare p page)
      (handlerOf prepare' (p + k) (page.shift k e cache)) where
  dialect := rfl
  call callee arguments named := inStep_call hPrepare callee arguments named
  write s := inStep_onDraft (inStep_write s) (lasting_uncached.write _) p

/-! ## Bodies -/

/-- The scope with one more variable, if its name is a text. -/
def bindNamed (dialect : Dialect) (scope : Scope) (entry : Value × Value) : Except Fault Scope :=
  match entry.1, dialect with
  | .text name, _ => .ok (scope.insert name entry.2)
  | _, .script => .ok scope
  | _, .braces => .error (.host .type)

theorem namedVariables_eq (dialect : Dialect) (vars : Bindings) :
    namedVariables dialect vars = vars.foldlM (bindNamed dialect) [] := rfl

theorem bindNamed_shift (dialect : Dialect) (scope : Scope) (entry : Value × Value) :
    bindNamed dialect (shiftNamed k scope) (entry.1.shift k, entry.2.shift k)
      = (bindNamed dialect scope entry).map (shiftNamed k) := by
  obtain ⟨key, value⟩ := entry
  cases key with
  | text name => exact congrArg Except.ok (insert_shiftNamed k scope name value)
  | _ => cases dialect <;> rfl

theorem namedVariables_shift (dialect : Dialect) (vars : Bindings) :
    namedVariables dialect (vars.shift k) = (namedVariables dialect vars).map (shiftNamed k) := by
  have hFold : ∀ scope : Scope, (vars.shift k).foldlM (bindNamed dialect) (shiftNamed k scope)
      = (vars.foldlM (bindNamed dialect) scope).map (shiftNamed k) := by
    induction vars with
    | nil => exact fun _ => rfl
    | cons entry rest ih =>
      intro scope
      rw [Bindings.shift, List.map_cons, List.foldlM_cons, List.foldlM_cons, bindNamed_shift]
      cases bindNamed dialect scope entry with
      | error fault => rfl
      | ok next => exact ih next
  rw [namedVariables_eq, namedVariables_eq]
  exact hFold []

theorem ground_shift (dialect : Dialect) : shiftNamed k (ground dialect) = ground dialect := by
  cases dialect <;> rfl

theorem scopeOf_shift (p : Nat) (page : Page) :
    scopeOf (p + k) (page.shift k e cache) = (scopeOf p page).map (shiftNamed k) := by
  have hVars : namedVariables page.context.dialect (page.vars.shift k)
      = (namedVariables page.context.dialect page.vars).map (shiftNamed k) :=
    namedVariables_shift _ _
  have hDirectives : (page.context.directives.map fun entry =>
        (entry.1, Value.directive (p + k) entry.1))
      = shiftNamed k (page.context.directives.map fun entry =>
        (entry.1, Value.directive p entry.1)) := by
    simp [shiftNamed, Value.shift, Function.comp_def]
  have hScope : scopeOf (p + k) (page.shift k e cache) = (do
      let vars ← namedVariables page.context.dialect (page.vars.shift k)
      return Table.merge (Table.merge (ground page.context.dialect)
        (page.context.directives.map fun entry => (entry.1, Value.directive (p + k) entry.1)))
        vars) := rfl
  have hMerged : ∀ directives : Scope,
      Table.merge (ground page.context.dialect) (shiftNamed k directives)
        = shiftNamed k (Table.merge (ground page.context.dialect) directives) := by
    intro directives
    rw [← merge_shiftNamed, ground_shift]
  rw [hScope, hVars, hDirectives, hMerged]
  unfold scopeOf
  cases namedVariables page.context.dialect page.vars with
  | error fault => rfl
  | ok vars => exact congrArg Except.ok (merge_shiftNamed k _ vars)

theorem inStep_runBody
    (hPrepare : ∀ p, InStep (Near u₀ k e cache) id (prepare p) (prepare' (p + k)))
    (p : Nat) : InStep (Near u₀ k e cache) id (runBody prepare p) (runBody prepare' (p + k)) := by
  unfold runBody
  refine (inStep_onDraft inStep_resetCaptures lasting_uncached.resetCaptures p).bind fun _ => ?_
  refine InStep.bind (g := id) (inStep_modify fun w w' hNear => ?_) fun _ => ?_
  · exact ⟨hNear.files, hNear.bodies, hNear.page, hNear.pages, hNear.outline, hNear.outlines,
      hNear.directives, hNear.uncached, hNear.still.of_pages⟩
  refine (inStep_page p).bind fun page => ?_
  -- the body is looked up in the files, which are the same
  intro w w' hNear
  have hRun := run_bodyOf page w
  have hRun' : (bodyOf (page.shift k e cache)).run w' = (bodyAt w.files page.place, w') := by
    rw [run_bodyOf, hNear.files]
    rfl
  cases hBody : bodyAt w.files page.place with
  | error fault =>
    rw [hBody] at hRun hRun'
    exact ends_bind_of_run_error hRun ⟨_, _, run_bind_of_error hRun' _, hNear⟩
  | ok items =>
    rw [hBody] at hRun hRun'
    have hKeeps := hNear.bodies page.place items hBody
    have hRest : InStep (Near u₀ k e cache) id (do
        let _ ← Body.runAll (handlerOf prepare p page) (← check (scopeOf p page)) items
        onDraft p Draft.finish) (do
        let _ ← Body.runAll (handlerOf prepare' (p + k) (page.shift k e cache))
          (← check (scopeOf (p + k) (page.shift k e cache))) items
        onDraft (p + k) Draft.finish) := by
      refine (inStep_check (scopeOf_shift p page)).bind fun scope => ?_
      refine (inStep_runAll (follows_handlerOf hPrepare p page) items scope hKeeps).bind fun _ => ?_
      exact inStep_onDraft inStep_finish lasting_uncached.finish p
    have hEnds := hRest w w' hNear
    refine ends_bind_of_run hRun ?_
    have hGoes := run_bind_of_ok hRun' fun items => (do
        let _ ← Body.runAll (handlerOf prepare' (p + k) (page.shift k e cache))
          (← check (scopeOf (p + k) (page.shift k e cache))) items
        onDraft (p + k) Draft.finish)
    rw [← hGoes] at hEnds
    exact hEnds

theorem inStep_prepareFrom (depth p : Nat) :
    InStep (Near u₀ k e cache) id (prepareFrom depth p) (prepareFrom depth (p + k)) := by
  induction depth generalizing p with
  | zero => exact inStep_throw _ _
  | succ depth ih => exact inStep_runBody ih p

/-- Preparing a page does not depend on the pages that were made before. -/
theorem inStep_prepare (p : Nat) :
    InStep (Near u₀ k e cache) id (Site.prepare p) (Site.prepare (p + k)) := by
  unfold Site.prepare
  refine inStep_get_bind fun w w' hNear => ?_
  have hDepth : depthLimit w' = depthLimit w := by rw [depthLimit, hNear.files, depthLimit]
  rw [hDepth]
  exact inStep_prepareFrom _ p w w' hNear

end Calls

end PageBlocks.Transparency
