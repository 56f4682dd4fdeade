import PageBlocks.Proofs.Guards
import PageBlocks.Proofs.Upkeep.Evaluation

/-!
# What directives uphold

A directive is made of a few steps. It looks at pages and outlines, moves the draft of its page on,
binds a variable or changes the cache mode, renders a block, keeps track of a text, and includes or
extends pages. What these steps uphold is upheld by every directive that is made of them
(`Backs.upholds_carryOut`), by the calls of a body (`upholds_call_of`), and by its run
(`ends_bodyWith_of`), whatever property of sites that is.

A step may uphold a property for some directives only, and with some values only. So the property
comes with the directives that are allowed and with a check on what they are called with (`Backs`).
To look at a site leaves it as it is, which upholds everything (`Looks`).
-/

set_option autoImplicit false

namespace PageBlocks.Upkeep

open PageBlocks.Body PageBlocks.Cache PageBlocks.Guards PageBlocks.Running PageBlocks.Site

/-! ## Looking at a site -/

/-- A computation leaves the site as it is. -/
def Looks {α : Type} (x : SiteM α) : Prop := ∀ w, (x.run w).2 = w

section Looks

variable {α β : Type} {I : World → Prop} {p : Nat}

theorem looks_pure (a : α) : Looks (pure a : SiteM α) := fun _ => rfl

theorem looks_throw (fault : Fault) : Looks (throw fault : SiteM α) := fun _ => rfl

theorem looks_check (x : Except Fault α) : Looks (check x) := by
  cases x with
  | ok a => exact looks_pure a
  | error fault => exact looks_throw fault

theorem Looks.bind {x : SiteM α} {f : α → SiteM β} (h : Looks x) (hNext : ∀ a, Looks (f a)) :
    Looks (x >>= f) := by
  intro w
  have hFirst := h w
  rw [run_bind]
  rcases hRun : x.run w with ⟨fault | a, w'⟩
  · rw [hRun] at hFirst
    exact hFirst
  · rw [hRun] at hFirst
    exact (hNext a w').trans hFirst

theorem Looks.bind_get {f : World → SiteM β} (h : ∀ w, Looks (f w)) : Looks (get >>= f) :=
  fun w => h w w

/-- What only looks at a site upholds every property, and gives what it sees there. -/
theorem Looks.upholds_of {x : SiteM α} {post : α → Prop} (h : Looks x)
    (hPost : ∀ w a, I w → (x.run w).1 = .ok a → post a) : Upholds I x post := by
  intro w hInv
  have hSame : I (x.run w).2 := by rwa [h w]
  rcases hRun : x.run w with ⟨fault | a, w'⟩
  · rw [hRun] at hSame
    exact ends_of_run_error hRun hSame
  · rw [hRun] at hSame
    exact ends_of_run hRun ⟨hPost w a hInv (by rw [hRun]), hSame⟩

theorem Looks.upholds {x : SiteM α} (h : Looks x) : Upholds I x fun _ => True :=
  h.upholds_of fun _ _ _ _ => trivial

theorem looks_page (p : Nat) : Looks (page p) := by
  refine Looks.bind_get fun w => ?_
  split
  · exact looks_pure _
  · exact looks_throw _

theorem looks_outlineOf (p : Nat) : Looks (outlineOf p) :=
  (looks_page p).bind fun _ => Looks.bind_get fun _ => looks_pure _

theorem looks_locate (locator : Locator) (name : Value) (extra : List Path) :
    Looks (locate locator name extra) := by
  intro w
  rw [run_locate]

theorem looks_bodyOf (page : Page) : Looks (bodyOf page) := by
  intro w
  rw [run_bodyOf]

theorem looks_requireCache (page : Page) : Looks (requireCache page) := by
  unfold requireCache
  split
  · exact looks_pure _
  · exact looks_throw _

theorem looks_currentBlock (p : Nat) : Looks (currentBlock p) := by
  refine (looks_page p).bind fun page => (looks_outlineOf p).bind fun o => ?_
  dsimp only
  split
  · exact looks_pure _
  · exact looks_throw _

theorem looks_blockNames (p : Nat) : Looks (blockNames p) := by
  refine (looks_outlineOf p).bind fun o => Looks.bind ?_ fun names => looks_pure _
  induction o.registry with
  | nil => exact looks_pure _
  | cons entry rest ih =>
    rw [List.mapM_cons]
    refine Looks.bind ?_ fun name => ih.bind fun names => looks_pure _
    split
    · exact looks_pure _
    · exact looks_throw _

theorem looks_tagOf (p : Nat) (kind : Value) (arguments : List Value) :
    Looks (tagOf p kind arguments) :=
  (looks_page p).bind fun _ => looks_check _

theorem upholds_page_of {post : Page → Prop}
    (h : ∀ w page, I w → w.pages[p]? = some page → post page) : Upholds I (page p) post := by
  refine (looks_page p).upholds_of fun w found hInv hRun => ?_
  cases hPage : w.pages[p]? with
  | none =>
    rw [run_page_error hPage] at hRun
    cases hRun
  | some page =>
    rw [run_page hPage] at hRun
    cases hRun
    exact h w found hInv hPage

/-- The cache that a page needs is the one that it has. -/
theorem upholds_requireCache (page : Page) :
    Upholds I (requireCache page) fun cache => page.context.cache = some cache := by
  unfold requireCache
  split
  · rename_i cache hCache
    exact upholds_pure hCache
  · exact upholds_throw _

/-- Whatever is transformed, the result is a text. -/
theorem upholds_transformed_of {post : Value → Prop} (hText : ∀ s, post (.text s))
    (transforms : Table String Transform) (text transform : Value) :
    Upholds I (transformed transforms text transform) post := by
  refine Upholds.bind_check fun found _ => upholds_check fun v hShown => ?_
  obtain ⟨s, rfl⟩ : ∃ s, v = .text s := by
    unfold Transform.applyTo at hShown
    split at hShown <;> cases hShown <;> exact ⟨_, rfl⟩
  exact hText s

end Looks

/-! ## Changing a site -/

section Changes

variable {α : Type} {I : World → Prop} {p : Nat}

theorem upholds_updatePage_of {f : Page → Page}
    (h : ∀ w, I w → I { w with pages := w.pages.modify p f }) :
    Upholds I (updatePage p f) fun _ => True :=
  fun w hInv => ends_modify ⟨trivial, h w hInv⟩

theorem upholds_onVault_of {x : VaultM α}
    (h : ∀ w, I w → I { w with vault := (x.run w.vault).2 }) :
    Upholds I (onVault x) fun _ => True := by
  refine Upholds.bind_get fun w hInv => ends_set_bind ?_
  exact upholds_check (fun _ _ => trivial) _ (h w hInv)

/-- A page that keeps track of a tag is marked by that, and no longer static. -/
theorem upholds_track_of (h : Upholds I (updatePage p fun page =>
      { page with
        deferred := true
        mode := if page.mode = .static then .dynamic else page.mode }) fun _ => True)
    (text : String) : Upholds I (track p text) fun _ => True := by
  unfold track
  split
  · exact h.seq fun _ => upholds_pure trivial
  · exact upholds_pure trivial

theorem upholds_setOption_of {value : Value} (h : ∀ mode, modeOf value = .ok mode →
      Upholds I (updatePage p fun page => { page with mode }) fun _ => True) (option : Value) :
    Upholds I (setOption p option value) fun _ => True := by
  unfold setOption
  split
  · split
    · exact Upholds.bind_check h
    · exact upholds_throw _
  · exact upholds_throw _
  · exact upholds_throw _

theorem upholds_setVariable_of {name value : Value} (h : Upholds I (updatePage p fun page =>
      { page with vars := page.vars.insert name value }) fun _ => True) :
    Upholds I (setVariable p name value) fun _ => True := by
  unfold setVariable
  split
  · exact h
  · exact upholds_throw _

theorem upholds_declareMarkup_of {name : Value}
    (h : ∀ transform, Upholds I (declareBlock p name .markup .null (some transform)) fun _ => True)
    (transforms : Table String Transform) (transform : Value) :
    Upholds I (declareMarkup p transforms name transform) fun _ => True :=
  Upholds.bind_check fun found _ => h found

/-- The output of a block that is not there is empty. -/
theorem upholds_blockOutput_of {post : String → Prop}
    (h : ∀ i, Upholds I (renderBlock p i) post) (hNone : post "") (name : Value) :
    Upholds I (blockOutput p name) post := by
  unfold blockOutput
  split
  · exact upholds_throw _
  · refine (looks_outlineOf p).upholds.seq fun o => ?_
    split
    · exact h _
    · exact upholds_pure hNone

theorem upholds_deferFragment_of {post : Value → Prop} (hText : ∀ s, post (.text s))
    (h : ∀ text, Upholds I (track p text) fun _ => True) (kind : Value) (arguments : List Value) :
    Upholds I (deferFragment p kind arguments) post := by
  refine (looks_tagOf p kind arguments).upholds.seq fun text => ?_
  exact Upholds.map ((h text).mono fun shown _ => hText shown)

/-- By way of the cache or not: a text is looked up, and computed and stored if it is not there. -/
theorem upholds_remembered_of {cache : Ref} {key : String} {lifetime : Value}
    {compute : SiteM String} (hLookup : Upholds I (onVault (cache.lookup key)) fun _ => True)
    (hCompute : Upholds I compute fun _ => True)
    (hPut : ∀ text, Upholds I (onVault (cache.put key text (some lifetime))) fun _ => True) :
    Upholds I (Site.remembered cache key lifetime compute) fun _ => True := by
  refine hLookup.seq fun found => ?_
  cases found with
  | some text => exact upholds_pure trivial
  | none => exact hCompute.seq fun text => (hPut text).seq fun _ => upholds_pure trivial

end Changes

/-! ## Directives -/

/-- What the steps of directives have to uphold so that all directives that are allowed do, if what
they are called with passes a check. Results are of a kind that all texts are of. -/
structure Backs (I : World → Prop) (fits : Value → Bool) (post : Value → Prop)
    (allowed : Directive → Prop) (prepare : Nat → SiteM Unit) (p : Nat) : Prop where
  closed : Closed fits
  word : ∀ s, fits (.text s) = true
  text : ∀ s, post (.text s)
  inserter : allowed .inserter → ∀ name, post (.inserter p name)
  currentName : allowed .currentName → ∀ name, post name
  openBlock : ∀ name mode, Upholds I (onDraft p (Draft.openBlock name mode)) fun _ => True
  close : Upholds I (onDraft p Draft.close) fun _ => True
  write : ∀ v, Upholds I (onDraft p (Draft.write v)) fun _ => True
  cacheable : allowed .cacheableBlock → ∀ name lifetime,
    Upholds I (declareBlock p name .cacheable lifetime none) fun _ => True
  markup : ∀ name transform,
    Upholds I (declareBlock p name .markup .null (some transform)) fun _ => True
  bind : ∀ {name value}, fits name = true → fits value = true → Upholds I (updatePage p fun page =>
    { page with vars := page.vars.insert name value }) fun _ => True
  mode : allowed .setOption → ∀ mode,
    Upholds I (updatePage p fun page => { page with mode }) fun _ => True
  renderBlock : ∀ i, Upholds I (renderBlock p i) fun _ => True
  track : allowed .deferFragment ∨ allowed .freshFetch →
    ∀ text, Upholds I (track p text) fun _ => True
  count : ∀ {counter}, allowed (.tick counter) →
    Upholds I (Site.count counter) fun n => post (.int n)
  extend : allowed .extendPage → ∀ name, Upholds I (extend prepare p name) fun _ => True
  includePage : allowed .includePage → ∀ {name vars}, fits vars = true →
    Upholds I (includePage prepare p name vars) fun _ => True
  cachedInclude : ∀ {default}, allowed (.cachedInclude default) → ∀ {name vars} lifetime,
    fits vars = true → Upholds I (cachedInclude prepare p name vars lifetime) fun _ => True
  cachedFetch : ∀ {default}, allowed (.cachedFetch default) → ∀ url lifetime,
    Upholds I (cachedFetch p url lifetime) fun _ => True
  answer : ∀ {r}, allowed (.request r) → Upholds I (answer prepare r) fun v => post (shown v)

section Directives

variable {I : World → Prop} {fits : Value → Bool} {post : Value → Prop}
  {allowed : Directive → Prop} {prepare : Nat → SiteM Unit} {p : Nat}

/-- A directive upholds what its steps do. -/
theorem Backs.upholds_carryOut (h : Backs I fits post allowed prepare p) {directive : Directive}
    (hAllowed : allowed directive) {values : List Value} (hValues : ∀ v ∈ values, fits v = true) :
    Upholds I (carryOut prepare p directive values) post := by
  have hDone : ∀ {α : Type} {x : SiteM α}, Upholds I x (fun _ => True) →
      Upholds I (do
        let _ ← x
        return done) post := fun hStep => hStep.seq fun _ => upholds_pure (h.text "")
  have hShown : ∀ {x : SiteM String}, Upholds I x (fun _ => True) →
      Upholds I (Value.text <$> x) post := fun hText => Upholds.map (hText.mono fun s _ => h.text s)
  have hPage : ∀ q, Upholds I (page q) fun _ => True := fun q => (looks_page q).upholds
  have hBlock : Upholds I (currentBlock p) fun _ => True := (looks_currentBlock p).upholds
  -- one case for each directive, in the order of its definition
  unfold carryOut
  split
  · exact hDone (h.openBlock _ _)
  · exact hDone (h.openBlock _ _)
  · exact hDone (h.openBlock _ _)
  · exact hDone h.close
  · exact hDone (h.extend hAllowed _)
  · exact hShown (h.includePage hAllowed (hValues _ (by simp)))
  · exact hShown (upholds_blockOutput_of h.renderBlock trivial _)
  · exact hBlock.seq fun b => upholds_pure (h.text _)
  · exact upholds_pure (h.inserter hAllowed _)
  · exact hDone (upholds_setVariable_of (h.bind (hValues _ (by simp)) (hValues _ (by simp))))
  · exact hDone (upholds_setOption_of (fun mode _ => h.mode hAllowed mode) _)
  · refine (hPage p).seq fun page => (looks_requireCache page).upholds.seq fun _ => ?_
    exact hDone (h.cacheable hAllowed _ _)
  · exact hShown (h.cachedInclude hAllowed _ (hValues _ (by simp)))
  · exact hShown (h.cachedFetch hAllowed _ _)
  · refine (hPage p).seq fun page => (looks_requireCache page).upholds.seq fun _ => ?_
    exact upholds_deferFragment_of h.text (h.track (.inr hAllowed)) _ _
  · exact hDone (upholds_declareMarkup_of (h.markup _) _ _)
  · exact upholds_transformed_of h.text _ _ _
  · exact hDone (upholds_declareMarkup_of (h.markup _) _ _)
  · exact upholds_transformed_of h.text _ _ _
  · exact (h.count hAllowed).bind fun n hNumber => upholds_pure hNumber
  · exact upholds_pure (h.text _)
  · exact hDone (h.write _)
  · exact (hPage p).seq fun page => upholds_pure (h.text _)
  · exact (hPage p).seq fun page => upholds_pure (h.text _)
  · exact hShown (looks_blockNames p).upholds
  · exact hBlock.seq fun b => upholds_pure (h.currentName hAllowed _)
  · refine (hPage p).seq fun page => (looks_check _).upholds.seq fun text => ?_
    exact upholds_pure (h.text _)
  · exact (hPage p).seq fun page => upholds_pure (h.text _)
  · exact Upholds.map (h.answer hAllowed)
  · exact upholds_throw _

/-- Whether a value is null or a text. -/
def isNullOrText : Value → Bool
  | .null | .text _ => true
  | _ => false

/-- The defaults of parameters are null and texts. -/
theorem null_or_text_of_default {directive : Directive} {q : Parameter}
    (hMem : q ∈ parameters directive) {v : Value} (h : q.default = some v) :
    v = .null ∨ ∃ s, v = .text s := by
  have hAll : ((parameters directive).all fun q => q.default.all isNullOrText) = true := by
    cases directive <;> rfl
  have hOne := List.all_eq_true.mp hAll q hMem
  rw [h] at hOne
  cases v with
  | null => exact .inl rfl
  | text s => exact .inr ⟨s, rfl⟩
  | _ => cases hOne

theorem Closed.fits_default (hClosed : Closed fits) (hWord : ∀ s, fits (.text s) = true)
    (directive : Directive) :
    ∀ q ∈ parameters directive, ∀ v, q.default = some v → fits v = true := by
  intro q hMem v hDefault
  rcases null_or_text_of_default hMem hDefault with rfl | ⟨s, rfl⟩
  · exact hClosed.null
  · exact hWord s

theorem Backs.upholds_callDirective (h : Backs I fits post allowed prepare p)
    {directive : Directive} (hAllowed : allowed directive) {arguments : List Value}
    {named : Table String Value} (hArguments : ∀ v ∈ arguments, fits v = true)
    (hNamed : NamedFit fits named) :
    Upholds I (callDirective prepare p directive arguments named) post := by
  unfold callDirective
  split
  · exact Upholds.bind_check fun found _ =>
      upholds_deferFragment_of h.text (h.track (.inl hAllowed)) _ _
  · refine Upholds.bind_check fun found _ => ?_
    exact (looks_tagOf p _ _).upholds.seq fun text => upholds_pure (h.text text)
  · refine Upholds.bind_check fun values hBound => ?_
    have hValues := (forall_mem_bindArguments (h.closed.fits_default h.word directive) hArguments
      (fun binding hMem => (hNamed binding hMem).2) hBound).2
    exact h.upholds_carryOut hAllowed hValues

/-- An inserter includes a page, with variables that come as one mapping, by name, or both. -/
theorem Backs.upholds_callInserter (h : Backs I fits post allowed prepare p)
    (hAllowed : allowed .includePage) {name : Value} {arguments : List Value}
    {named : Table String Value} (hArguments : ∀ v ∈ arguments, fits v = true)
    (hNamed : NamedFit fits named) :
    Upholds I (callInserter prepare p name arguments named) post := by
  have hRest : ∀ {vars : Value} {left : Table String Value}, fits vars = true →
      NamedFit fits left → Upholds I (do
        let given ← check (Bindings.ofMap vars)
        let more := left.map fun binding => (Value.text binding.1, binding.2)
        Value.text <$> Site.includePage prepare p name (.map (Table.merge given more))) post := by
    intro vars left hVars hLeft
    refine Upholds.bind_check fun given hGiven => ?_
    have hMerged : fits (.map (Table.merge given
        (left.map fun binding => (Value.text binding.1, binding.2)))) = true :=
      (h.closed.map _).mpr ((h.closed.ofMap hVars hGiven).merge hLeft.bindings)
    exact Upholds.map ((h.includePage hAllowed hMerged).mono fun text _ => h.text text)
  unfold callInserter
  dsimp only
  split
  · exact hRest h.closed.null hNamed
  · rename_i v hFound
    refine hRest (hNamed _ (Table.mem_of_get?_eq_some hFound)).2 ?_
    exact fun binding hMem => hNamed binding (Table.mem_of_mem_erase hMem)
  · exact hRest (hArguments _ List.mem_cons_self) hNamed
  · exact upholds_throw _

end Directives

/-! ## Calls and bodies -/

section Calls

variable {I : World → Prop} {post : Value → Prop} {prepare : Nat → SiteM Unit} {p : Nat}

theorem NamedFit.table {fits : Value → Bool} {named : List (String × Value)}
    (h : NamedFit fits named) : NamedFit fits (Table.ofBindings named) :=
  fun binding hMem =>
    h binding ((Table.mem_or_mem_of_mem_merge hMem).resolve_left List.not_mem_nil)

/-- Calling a directive carries it out, if the page that it is bound to knows it. -/
theorem upholds_call_directive_of {q : Nat} {name : String} {arguments : List Value}
    {named : List (String × Value)}
    (h : ∀ w page directive, I w → w.pages[q]? = some page →
      page.context.directives.get? name = some directive → Upholds I
        (callDirective prepare q directive arguments (Table.ofBindings named)) post) :
    Upholds I (call prepare (.directive q name) arguments named) post := by
  refine (upholds_page_of fun w page hInv hPage directive => h w page directive hInv hPage).bind
    fun page hCalls => ?_
  split
  · rename_i directive hFound
    exact hCalls directive hFound
  · exact upholds_throw _

/-- A call upholds what the directive, the inserter or the function of the language does that is
called. -/
theorem upholds_call_of {callee : Value} {arguments : List Value} {named : List (String × Value)}
    (hDirective : ∀ q name, callee = .directive q name → ∀ w page directive, I w →
      w.pages[q]? = some page → page.context.directives.get? name = some directive → Upholds I
        (callDirective prepare q directive arguments (Table.ofBindings named)) post)
    (hInserter : ∀ q name, callee = .inserter q name → Upholds I
      (callInserter prepare q name arguments (Table.ofBindings named)) post)
    (hBuiltIn : ∀ f, callee = .builtIn f → ∀ v,
      callBuiltIn arguments (Table.ofBindings named) f = .ok v → post v) :
    Upholds I (call prepare callee arguments named) post := by
  cases callee with
  | directive q name => exact upholds_call_directive_of (hDirective q name rfl)
  | inserter q name => exact hInserter q name rfl
  | builtIn f => exact upholds_check (hBuiltIn f rfl)
  | _ => exact upholds_throw _

/-- The run of a body upholds what its items do, if it may start and end. -/
theorem ends_bodyWith_of {call : Value → List Value → List (String × Value) → SiteM Value}
    {w : World} (hStart : Ends (onDraft p Draft.resetCaptures) w (fun _ => I) I)
    (hCount : ∀ w, I w → I { w with executed := w.executed + 1 })
    (hItems : ∀ w page items scope, I w → w.pages[p]? = some page →
      bodyAt w.files page.place = .ok items → scopeOf p page = .ok scope →
        Upholds I (runAll
          { dialect := page.context.dialect
            call
            write := fun s => onDraft p (Draft.write (.text s)) } scope items) fun _ => True)
    (hFinish : Upholds I (onDraft p Draft.finish) fun _ => True) :
    Ends (bodyWith call p) w (fun _ => I) I := by
  unfold bodyWith
  refine Ends.bind hStart fun _ w₁ hInv₁ => ends_modify_bind ?_
  have hInv := hCount w₁ hInv₁
  generalize { w₁ with executed := w₁.executed + 1 } = w₂ at hInv
  -- what is looked up does not change the site, so all of it is seen at once
  cases hPage : w₂.pages[p]? with
  | none => exact ends_bind_of_run_error (run_page_error hPage) hInv
  | some page =>
    refine ends_bind_of_run (run_page hPage) ?_
    have hRead := run_bodyOf page w₂
    cases hBody : bodyAt w₂.files page.place with
    | error fault =>
      exact ends_bind_of_run_error (hRead.trans (by rw [hBody])) hInv
    | ok items =>
      refine ends_bind_of_run (hRead.trans (by rw [hBody])) ?_
      cases hScope : scopeOf p page with
      | error fault => exact ends_bind_of_run_error (run_check_error rfl w₂) hInv
      | ok scope =>
        refine ends_bind_of_run (run_check rfl w₂) ?_
        have hRun := (hItems w₂ page items scope hInv hPage hBody hScope).seq fun _ => hFinish
        exact Ends.mono (hRun w₂ hInv) (fun _ _ hEnd => hEnd.2) fun _ => id

theorem upholds_bodyWith_of {call : Value → List Value → List (String × Value) → SiteM Value}
    (hStart : Upholds I (onDraft p Draft.resetCaptures) fun _ => True)
    (hCount : ∀ w, I w → I { w with executed := w.executed + 1 })
    (hItems : ∀ w page items scope, I w → w.pages[p]? = some page →
      bodyAt w.files page.place = .ok items → scopeOf p page = .ok scope →
        Upholds I (runAll
          { dialect := page.context.dialect
            call
            write := fun s => onDraft p (Draft.write (.text s)) } scope items) fun _ => True)
    (hFinish : Upholds I (onDraft p Draft.finish) fun _ => True) :
    Upholds I (bodyWith call p) fun _ => True := by
  intro w hInv
  have hStarts : Ends (onDraft p Draft.resetCaptures) w (fun _ => I) I :=
    Ends.mono (hStart w hInv) (fun _ _ hEnd => hEnd.2) fun _ => id
  exact Ends.mono (ends_bodyWith_of hStarts hCount hItems hFinish) (fun _ _ hEnd => ⟨trivial, hEnd⟩)
    fun _ => id

end Calls

end PageBlocks.Upkeep
