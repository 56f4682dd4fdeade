import PageBlocks.Proofs.Upkeep.Pages
import PageBlocks.Site.Run

/-!
# Calls and bodies that keep to terms

Whatever a body calls under the terms of its site keeps up what is kept (`upholds_call`), and so
does preparing a page to whatever depth that nests (`prepares`). That holds of every body whose
expressions keep to rules for the same values, as long as its special calls keep it up as well.
-/

set_option autoImplicit false

namespace PageBlocks.Upkeep

open PageBlocks.Body PageBlocks.Cache PageBlocks.Guards PageBlocks.Running PageBlocks.Site

section Calls

variable {t : Terms} {w₀ : World} {p : Nat} {prepare : Nat → SiteM Unit}
  {files : FileTree Body.Source}

/-! ## Directives -/

theorem all_modes (h : [CacheMode.static, .dynamic, .disabled].all t.modes = true)
    (m : CacheMode) : t.modes m = true := by
  refine List.all_eq_true.mp h m ?_
  cases m <;> decide

/-- A page may go over to a mode that bodies may ask for. -/
theorem upholds_mode {mode : CacheMode} (h : t.modes mode = true) :
    Upholds (Kept t w₀) (updatePage p fun page => { page with mode }) fun _ => True :=
  upholds_updatePage (fun _ hFits => ⟨hFits.directives, hFits.cache, hFits.vars⟩)
    (fun _ => ⟨rfl, rfl, fun hMark => hMark⟩) (fun _ => rfl) fun _ _ => h

theorem upholds_bind {name value : Value} (hName : t.fits name = true)
    (hValue : t.fits value = true) :
    Upholds (Kept t w₀) (updatePage p fun page =>
      { page with vars := page.vars.insert name value }) fun _ => True :=
  upholds_updatePage
    (fun _ hFits => ⟨hFits.directives, hFits.cache, hFits.vars.insert hName hValue⟩)
    (fun _ => ⟨rfl, rfl, fun hMark => hMark⟩) (fun _ => rfl) fun _ hMode => hMode

/-- A page keeps up what is kept while it declares blocks that are not cacheable. -/
theorem upholds_declareBlock {kind : BlockKind} (hKind : kind ≠ .cacheable) (name lifetime : Value)
    (transform : Option Transform) :
    Upholds (Kept t w₀) (declareBlock p name kind lifetime transform) fun _ => True := by
  refine (upholds_page p).bind fun page _ => Upholds.bind_check fun b hBlock => ?_
  have hSame : b.kind = kind := by
    unfold Block.declare at hBlock
    split at hBlock
    · cases hBlock
    · cases hBlock
      rfl
  exact (upholds_onDraft (lasting_uncached.addBlock (hSame ▸ hKind) .replace)).seq fun _ =>
    upholds_pure trivial

/-- The steps of allowed directives keep up what is kept. -/
theorem backs (hSound : t.Sound) (hPrepare : Prepares t files prepare) (hFiles : w₀.files = files)
    (p : Nat) :
    Backs (Kept t w₀) t.fits (fun v => t.fits v = true) (fun directive => t.allows directive = true)
      prepare p where
  closed := hSound.closed
  word := hSound.text
  text := hSound.text
  inserter hAllowed _ := (hSound.inserter _ _).trans hAllowed
  currentName hAllowed := Bool.noConfusion hAllowed
  openBlock name mode := upholds_onDraft (lasting_uncached.openBlock name mode)
  close := upholds_onDraft lasting_uncached.close
  write v := upholds_onDraft (lasting_uncached.write v)
  cacheable hAllowed := Bool.noConfusion hAllowed
  markup name transform := by
    refine upholds_declareBlock ?_ name .null (some transform)
    exact nofun
  bind := upholds_bind
  mode hAllowed mode := upholds_mode (all_modes hAllowed mode)
  renderBlock := upholds_renderBlock p
  track hAllowed := hAllowed.elim upholds_track fun hFresh => Bool.noConfusion hFresh
  count hAllowed := Bool.noConfusion hAllowed
  extend _ := upholds_extend hSound hPrepare hFiles
  includePage hAllowed _ _ := upholds_includePage hSound hPrepare hFiles hAllowed
  cachedInclude hAllowed := Bool.noConfusion hAllowed
  cachedFetch hAllowed := Bool.noConfusion hAllowed
  answer hAllowed := Bool.noConfusion hAllowed

/-! ## Calls -/

/-- Calling a directive that a page knows carries it out. -/
theorem upholds_callByName {name : String} {arguments : List Value}
    {named : List (String × Value)} {post : Value → Prop}
    (h : ∀ directive, t.directives.get? name = some directive → Upholds (Kept t w₀)
      (callDirective prepare p directive arguments (Table.ofBindings named)) post) :
    Upholds (Kept t w₀) (call prepare (.directive p name) arguments named) post := by
  refine upholds_call_directive_of fun w page directive hKept hPage hFound => h directive ?_
  rwa [(hKept.tended.pages p page hPage).directives] at hFound

/-- Whatever is called with values that pass the check keeps up what is kept. -/
theorem upholds_call (hSound : t.Sound) (hPrepare : Prepares t files prepare)
    (hFiles : w₀.files = files) {callee : Value} {arguments : List Value}
    {named : List (String × Value)} (hCallee : t.fits callee = true)
    (hArguments : ∀ v ∈ arguments, t.fits v = true) (hNamed : NamedFit t.fits named) :
    Upholds (Kept t w₀) (call prepare callee arguments named) fun v => t.fits v = true := by
  refine upholds_call_of ?_ ?_ ?_
  · rintro q name rfl w page directive hKept hPage hFound
    rw [(hKept.tended.pages q page hPage).directives] at hFound
    exact (backs hSound hPrepare hFiles q).upholds_callDirective
      (hSound.directive q name directive hCallee hFound) hArguments hNamed.table
  · rintro q name rfl
    exact (backs hSound hPrepare hFiles q).upholds_callInserter
      ((hSound.inserter q name).symm.trans hCallee) hArguments hNamed.table
  · rintro f rfl v hShown
    exact hSound.closed.callBuiltIn hArguments hNamed.table hShown

/-! ## Bodies -/

/-- Rules under which bodies keep to terms: the values are those of the terms, the names of
directives are free where bodies may call them with anything, and special calls keep up what is
kept. -/
structure Rules.Serve (r : Rules) (t : Terms) (files : FileTree Body.Source) : Prop where
  fits : r.fits = t.fits
  free : ∀ p name, (∃ directive, t.directives.get? name = some directive) →
    r.free name = true → t.fits (.directive p name) = true
  special : ∀ {w₀ : World} {prepare : Nat → SiteM Unit} {p : Nat} {page : Page} {e : Expr}
    {scope : Scope}, Prepares t files prepare → w₀.files = files → r.special e = true →
      ScopeFits r p scope →
        Upholds (Kept t w₀) (e.eval (handlerOf prepare p page) scope) fun v => r.fits v = true
  shown : ∀ e, r.shown e = false

theorem conducts_handlerOf {r : Rules} (hSound : t.Sound) (hServe : Rules.Serve r t files)
    (hPrepare : Prepares t files prepare) (hFiles : w₀.files = files) (page : Page) :
    Conducts (Kept t w₀) r p (handlerOf prepare p page) := by
  refine ⟨hServe.fits ▸ hSound.closed, ?_, ?_, hServe.special hPrepare hFiles, ?_⟩
  · intro callee arguments named hCallee hArguments hNamed
    rw [hServe.fits] at hCallee hArguments hNamed ⊢
    exact upholds_call hSound hPrepare hFiles hCallee hArguments hNamed
  · intro s _
    have hWrite : Upholds (Kept t w₀) (onDraft p (Draft.write (.text s))) fun _ => True :=
      upholds_onDraft (lasting_uncached.write _)
    exact hWrite
  · intro e scope hShown
    rw [hServe.shown e] at hShown
    cases hShown

/-- When a body starts, free names stand for values that pass the check. -/
theorem scopeFits_scopeOf {r : Rules} (hClosed : Closed t.fits) (hFits : r.fits = t.fits)
    (hNames : ∀ name, (∃ directive, t.directives.get? name = some directive) →
      r.free name = true → t.fits (.directive p name) = true)
    {page : Page} {scope : Scope} (hPage : PageFits t page) (h : scopeOf p page = .ok scope) :
    ScopeFits r p scope := by
  unfold scopeOf at h
  obtain ⟨vars, hVars, h⟩ := bind_eq_ok h
  cases h
  intro entry hMem
  rw [hFits]
  rcases Table.mem_or_mem_of_mem_merge hMem with hMem | hMem
  · rcases Table.mem_or_mem_of_mem_merge hMem with hMem | hMem
    · have hGround : ∀ dialect : Dialect, ∀ entry ∈ ground dialect, t.fits entry.2 = true := by
        intro dialect
        cases dialect <;> simp [ground, hClosed.builtIn]
      exact .inl (hGround _ entry hMem)
    · obtain ⟨binding, hBinding, rfl⟩ := List.mem_map.mp hMem
      rw [hPage.directives] at hBinding
      have hKnown := Table.exists_get?_of_mem hBinding
      cases hFree : r.free binding.1 with
      | true => exact .inl (hNames binding.1 hKnown hFree)
      | false => exact .inr ⟨rfl, rfl⟩
  · exact .inl (fits_of_mem_namedVariables hPage.vars hVars entry hMem)

/-- Running the body of a page keeps up what is kept if preparing other pages does. -/
theorem prepares_runBody {r : Rules} (hSound : t.Sound) (hServe : Rules.Serve r t files)
    (hBodies : ∀ place items, bodyAt files place = .ok items → Item.allKeep r items = true)
    (hPrepare : Prepares t files prepare) : Prepares t files (runBody prepare) := by
  intro w₀ hFiles p
  rw [runBody_eq]
  refine upholds_bodyWith_of (upholds_onDraft lasting_uncached.resetCaptures)
    (fun w hKept => ⟨⟨hKept.tended.pages, hKept.tended.outlines, hKept.tended.marks,
      hKept.tended.modes⟩, hKept.along.files, hKept.along.vault, hKept.along.settings,
      hKept.along.globals, hKept.along.pages⟩)
    (fun w page items scope hKept hPage hBody hScope => ?_)
    (upholds_onDraft lasting_uncached.finish)
  have hSame : w.files = files := hKept.along.files.trans hFiles
  have hItems := hBodies _ items (hSame ▸ hBody)
  have hConducts := conducts_handlerOf (p := p) hSound hServe hPrepare hFiles page
  have hStart := scopeFits_scopeOf hSound.closed hServe.fits (hServe.free p)
    (hKept.tended.pages p page hPage) hScope
  exact (upholds_runAll hConducts items hItems hStart).mono fun _ _ => trivial

theorem prepares_prepareFrom {r : Rules} (hSound : t.Sound) (hServe : Rules.Serve r t files)
    (hBodies : ∀ place items, bodyAt files place = .ok items → Item.allKeep r items = true)
    (depth : Nat) : Prepares t files (prepareFrom depth) := by
  induction depth with
  | zero => exact fun _ _ p => upholds_throw _
  | succ depth ih => exact prepares_runBody hSound hServe hBodies ih

/-- Preparing a page keeps up what is kept, to whatever depth that nests. -/
theorem prepares {r : Rules} (hSound : t.Sound) (hServe : Rules.Serve r t files)
    (hBodies : ∀ place items, bodyAt files place = .ok items → Item.allKeep r items = true) :
    Prepares t files Site.prepare :=
  fun w₀ hFiles p => Upholds.bind_get fun w hKept =>
    prepares_prepareFrom hSound hServe hBodies (depthLimit w) w₀ hFiles p w hKept

end Calls

end PageBlocks.Upkeep
