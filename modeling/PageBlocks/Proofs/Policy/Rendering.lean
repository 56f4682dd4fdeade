import PageBlocks.Proofs.Deferral.Requests
import PageBlocks.Proofs.Policy.Shelves
import PageBlocks.Proofs.Upkeep.Calls

/-!
# Where the answer to a request comes from

Rendering has two halves. The first one finds the output of a page: in one of its two entries, or by
running its body (`visit`). The second one stores what a body gave and resolves the fragments of
dynamic output (`conclude`, `render_eq`). On a site with the built-in directives and a shelf for a
cache, the first half is told by the entries of the page alone (`ends_visit`): if one of them is
live no body runs, and otherwise both are gone when the body ends, which has not touched the cache.
-/

set_option autoImplicit false

namespace PageBlocks.Policy

open PageBlocks.Body PageBlocks.Cache PageBlocks.Deferral PageBlocks.Running PageBlocks.Site
  PageBlocks.Storage PageBlocks.Upkeep

/-! ## Bodies under the built-in directives -/

/-- The rules that every body keeps to. -/
def anything : Rules := { fits := fun _ => true, free := fun _ => true }

section Anything

mutual

theorem keeps_anything : ∀ e : Expr, e.keeps anything = true
  | .literal _ => rfl
  | .name _ => rfl
  | .call f arguments named => by
    rw [Expr.keeps, keeps_anything f, allKeep_anything arguments, allNamedKeep_anything named]
    rfl
  | .join parts => allKeep_anything parts
  | .list items => allKeep_anything items
  | .map entries => allEntriesKeep_anything entries

theorem allKeep_anything : ∀ es : List Expr, Expr.allKeep anything es = true
  | [] => rfl
  | e :: rest => by
    rw [Expr.allKeep, keeps_anything e, allKeep_anything rest]
    rfl

theorem allNamedKeep_anything :
    ∀ named : List (String × Expr), Expr.allNamedKeep anything named = true
  | [] => rfl
  | (_, e) :: rest => by
    rw [Expr.allNamedKeep, keeps_anything e, allNamedKeep_anything rest]
    rfl

theorem allEntriesKeep_anything :
    ∀ entries : List (Expr × Expr), Expr.allEntriesKeep anything entries = true
  | [] => rfl
  | (k, e) :: rest => by
    rw [Expr.allEntriesKeep, keeps_anything k, keeps_anything e, allEntriesKeep_anything rest]
    rfl

end

mutual

theorem itemKeeps_anything : ∀ item : Item, item.keeps anything = true
  | .text _ => rfl
  | .emit e => by
    rw [Item.keeps, keeps_anything e]
    rfl
  | .bind _ e => keeps_anything e
  | .forget _ => rfl
  | .each _ source items => by
    rw [Item.keeps, keeps_anything source, itemsKeep_anything items]
    rfl
  | .branch arms otherwise => by
    rw [Item.keeps, armsKeep_anything arms, itemsKeep_anything otherwise]
    rfl

theorem itemsKeep_anything : ∀ items : List Item, Item.allKeep anything items = true
  | [] => rfl
  | item :: rest => by
    rw [Item.allKeep, itemKeeps_anything item, itemsKeep_anything rest]
    rfl

theorem armsKeep_anything : ∀ arms : List (Expr × List Item), Item.allArmsKeep anything arms = true
  | [] => rfl
  | (condition, items) :: rest => by
    rw [Item.allArmsKeep, keeps_anything condition, itemsKeep_anything items,
      armsKeep_anything rest]
    rfl

end

end Anything

/-- The terms of a site with the built-in directives, whatever its bodies do. -/
def terms (cache : Option Ref) : Terms :=
  { directives := Directive.builtIn, cache, fits := fun _ => true, modes := fun _ => true
    tracks := true }

theorem closed_anything : Closed fun _ => true := by
  constructor <;> simp

/-- A body upholds what its calls and its output do, whatever it is. -/
theorem upholds_runAll_anything {I : World → Prop} {handler : Handler SiteM}
    (hCall : ∀ callee arguments named,
      Upholds I (handler.call callee arguments named) fun _ => True)
    (hWrite : ∀ s, Upholds I (handler.write s) fun _ => True) (items : List Item) {scope : Scope} :
    Upholds I (runAll handler scope items) fun _ => True := by
  have hConducts : Conducts I anything 0 handler := by
    constructor
    case closed => exact closed_anything
    case call =>
      intro callee arguments named _ _ _
      exact (hCall callee arguments named).mono fun _ _ => rfl
    case write => exact fun _ => hWrite _
    case special =>
      intro e scope hSpecial
      cases hSpecial
    case shown =>
      intro e scope hShown
      cases hShown
  exact (upholds_runAll hConducts items (itemsKeep_anything items) fun _ _ => .inl rfl).mono
    fun _ _ => trivial

theorem sound_terms (cache : Option Ref) : (terms cache).Sound := by
  refine ⟨closed_anything, fun _ => rfl, fun _ _ => rfl, rfl, ?_⟩
  intro p name directive _ hFound
  have hMem := Table.mem_of_get?_eq_some hFound
  simp only [terms, Directive.builtIn, List.mem_cons, List.not_mem_nil, or_false,
    Prod.mk.injEq] at hMem
  rcases hMem with ⟨-, rfl⟩ | ⟨-, rfl⟩ | ⟨-, rfl⟩ | ⟨-, rfl⟩ | ⟨-, rfl⟩ | ⟨-, rfl⟩ | ⟨-, rfl⟩
    | ⟨-, rfl⟩ | ⟨-, rfl⟩ | ⟨-, rfl⟩ | ⟨-, rfl⟩ | ⟨-, rfl⟩ <;> rfl

theorem serve_anything (cache : Option Ref) (files : FileTree Source) :
    Rules.Serve anything (terms cache) files :=
  ⟨rfl, fun _ _ _ _ => rfl, fun _ _ h _ => Bool.noConfusion h, fun _ => rfl⟩

/-- Under the built-in directives no body uses the cache. -/
theorem prepares_builtIn (cache : Option Ref) (files : FileTree Source) :
    Prepares (terms cache) files Site.prepare :=
  prepares (sound_terms cache) (serve_anything cache files) fun _ items _ =>
    itemsKeep_anything items

/-! ## The two halves of rendering -/

/-- Where the output of a page was found. -/
inductive Origin where
  | compiled (page : Page) (text : String)
  | final (text : String)
  /-- The body of the page, which left the page like this. -/
  | body (page : Page) (text : String)

/-- Run the body of a page. -/
def originAnew (p : Nat) : SiteM Origin := do
  let text ← renderPage Site.prepare p
  return .body (← page p) text

/-- Find the output of a page by way of the cache. -/
def originCached (cache : Ref) (p : Nat) : SiteM Origin := do
  let page ← page p
  match ← onVault (cache.lookup (Identity.compiled page.id)) with
  | some text => return .compiled page text
  | none =>
    match ← onVault (cache.lookup page.id) with
    | some text => return .final text
    | none => originAnew p

/-- Find the output of the page that a request asks for; the variables of the request go with it. -/
def visit (name vars : Value) (paths : List String) (useGlobals : Bool) :
    SiteM (Bindings × Origin) := do
  let w ← get
  let extra := paths.map Path.ofText
  let place ← locate w.settings.locator name extra
  let given ← check (Bindings.ofRequest vars)
  let request := if useGlobals then Table.merge w.globals given else given
  let context := contextFor w.settings extra
  let p ← newPage place request context []
  let origin ← match context.cache with
    | some cache => originCached cache p
    | none => originAnew p
  return (request, origin)

/-- Make an answer of the output of a page, which is stored if it is new. -/
def conclude (request : Bindings) : Origin → SiteM String
  | .compiled page text => resolveFragments page.context request text
  | .final text => return text
  | .body page text => do
    match page.context.cache with
    | some cache => store cache page text
    | none => pure ()
    if page.isDynamic then resolveFragments page.context request text else return text

theorem renderAnew_eq (p : Nat) (request : Bindings) :
    renderAnew Site.prepare p request = originAnew p >>= conclude request := by
  unfold renderAnew originAnew
  simp only [bind_assoc, pure_bind]
  rfl

theorem renderCached_eq (cache : Ref) (p : Nat) (request : Bindings) :
    renderCached Site.prepare cache p request = originCached cache p >>= conclude request := by
  unfold renderCached originCached
  rw [bind_assoc]
  refine congrArg _ (funext fun page => ?_)
  rw [bind_assoc]
  refine congrArg _ (funext fun compiled => ?_)
  cases compiled with
  | some text => rw [pure_bind]; rfl
  | none =>
    dsimp only
    rw [bind_assoc]
    refine congrArg _ (funext fun final => ?_)
    cases final with
    | some text => rw [pure_bind]; rfl
    | none => exact renderAnew_eq p request

/-- Rendering is finding the output of a page and making an answer of it. -/
theorem render_eq (name vars : Value) (paths : List String) (useGlobals : Bool) :
    render Site.prepare name vars paths useGlobals
      = visit name vars paths useGlobals >>= fun found => conclude found.1 found.2 := by
  unfold render visit
  simp only [bind_assoc]
  refine congrArg _ (funext fun w => congrArg _ (funext fun place => congrArg _ (funext fun given =>
    congrArg _ (funext fun p => ?_))))
  cases (contextFor w.settings (paths.map Path.ofText)).cache with
  | some cache =>
    simp only [bind_assoc, pure_bind]
    exact renderCached_eq cache p _
  | none =>
    simp only [bind_assoc, pure_bind]
    exact renderAnew_eq p _

/-! ## Sites with a shelf for a cache -/

/-- A site that uses a shelf, with the built-in directives. Of the two entries of each of some
pages, at most one is there. -/
structure Governed (n : Nat) (lifetime : Value) (ids : List String) (w : World) : Prop where
  cache : w.settings.cache = some (.shelf n)
  lifetime : w.settings.lifetime = lifetime
  directives : w.settings.directives = Directive.builtIn
  tidied : Tidied n w.vault
  tended : Tended (terms (some (.shelf n))) w
  single : ∀ id ∈ ids, (w.vault.shelf n).get? id = none
    ∨ (w.vault.shelf n).get? (Identity.compiled id) = none

/-- A site after something that left the settings as they are; of what it did to the caches nothing
is said. -/
structure Level (n : Nat) (w w' : World) : Prop where
  settings : w'.settings = w.settings
  globals : w'.globals = w.globals
  files : w'.files = w.files
  tended : Tended (terms (some (.shelf n))) w'

section Visiting

variable {n : Nat} {lifetime : Value} {ids : List String} {w w' : World} {name vars : Value}
  {paths : List String} {useGlobals : Bool}

theorem Level.refl (h : Governed n lifetime ids w) : Level n w w := ⟨rfl, rfl, rfl, h.tended⟩

theorem Level.trans {w'' : World} (h : Level n w w') (h' : Level n w' w'') : Level n w w'' :=
  ⟨h'.settings.trans h.settings, h'.globals.trans h.globals, h'.files.trans h.files, h'.tended⟩

theorem Level.of_kept (h : Kept (terms (some (.shelf n))) w w') : Level n w w' :=
  ⟨h.along.settings, h.along.globals, h.along.files, h.tended⟩

/-- The variables of a request. -/
def requestOf (w : World) (vars : Value) (useGlobals : Bool) : Except Fault Bindings :=
  (Bindings.ofRequest vars).map fun given =>
    if useGlobals then Table.merge w.globals given else given

/-- A site with other pages; nothing else differs. -/
def Beside (w w' : World) : Prop :=
  ∃ pages outlines, w' = { w with pages := pages, outlines := outlines }

theorem Beside.refl (w : World) : Beside w w := ⟨w.pages, w.outlines, rfl⟩

theorem Beside.trans {w'' : World} (h : Beside w w') (h' : Beside w' w'') : Beside w w'' := by
  obtain ⟨pages, outlines, rfl⟩ := h
  obtain ⟨pages', outlines', rfl⟩ := h'
  exact ⟨pages', outlines', rfl⟩

/-- Where the output of the page with an identity is found, with the site after that. -/
inductive Found (n : Nat) (id : String) (w : World) : Origin → World → Prop where
  | compiled {page : Page} {text : String} {second : Number.Binary64} {w' : World}
    (hEntry : (w.vault.shelf n).get? (Identity.compiled id) = some (Entry.ofContent text second))
    (hFragments : page.context.fragments = w.settings.fragments) (hBeside : Beside w w') :
    Found n id w (.compiled page text) w'
  | final {text : String} {second : Number.Binary64} {w' : World}
    (hEntry : (w.vault.shelf n).get? id = some (Entry.ofContent text second))
    (hBeside : Beside w w') :
    Found n id w (.final text) w'
  | body {page : Page} {text : String} {w' : World} (hMissed : Missed n id w.vault)
    (hVault : w'.vault = evicted n id w.vault) (hId : page.id = id)
    (hContext : ∃ locator, page.context = { w.settings with locator }) :
    Found n id w (.body page text) w'

/-- How finding the output of a page fails: none of its entries is live, and its body does not give
any. -/
structure Failed (n : Nat) (id : String) (w w' : World) : Prop where
  missed : Missed n id w.vault
  vault : w'.vault = evicted n id w.vault

theorem run_onVault {α : Type} {x : VaultM α} {a : α} {v : Vault} (h : x.run w.vault = (.ok a, v)) :
    (onVault x).run w = (.ok a, { w with vault := v }) := by
  unfold onVault
  rw [run_bind_of_ok (run_get w), h]
  rfl

theorem Governed.level_vault (h : Governed n lifetime ids w) (v : Vault) :
    Level n w { w with vault := v } :=
  ⟨rfl, rfl, rfl, ⟨h.tended.pages, h.tended.outlines, h.tended.marks, h.tended.modes⟩⟩

/-- The body of a page leaves the cache as it is. -/
theorem ends_originAnew {p : Nat} {page : Page} (hTended : Tended (terms (some (.shelf n))) w)
    (hPage : w.pages[p]? = some page) :
    Ends (originAnew p) w
      (fun origin w' => Level n w w' ∧ w'.vault = w.vault
        ∧ ∃ after text, origin = .body after text ∧ after.id = page.id
          ∧ after.context = page.context)
      fun w' => Level n w w' ∧ w'.vault = w.vault := by
  have hKept : ∀ w', Kept (terms (some (.shelf n))) w w' → Level n w w' ∧ w'.vault = w.vault :=
    fun w' h => ⟨Level.of_kept h, h.along.vault⟩
  have hRender := upholds_renderPage (prepares_builtIn _ w.files) rfl p w ⟨hTended, Along.refl w⟩
  unfold originAnew
  refine Ends.bind (Ends.mono hRender (fun _ _ hEnd => hEnd) hKept) fun text w₁ hEnd => ?_
  obtain ⟨after, hAfter, hLater⟩ := hEnd.2.along.pages p page hPage
  obtain ⟨hLevel, hVault⟩ := hKept w₁ hEnd.2
  refine ends_bind_of_run (run_page hAfter) (ends_pure ⟨hLevel, hVault, after, text, rfl, ?_, ?_⟩)
  · exact hLater.id
  · exact hLater.context

theorem ends_originCached {p : Nat} {page : Page} (h : Governed n lifetime ids w)
    (hPage : w.pages[p]? = some page) (hId : page.id ∈ ids)
    (hContext : ∃ locator, page.context = { w.settings with locator }) :
    Ends (originCached (.shelf n) p) w
      (fun origin w' => Level n w w' ∧ Found n page.id w origin w')
      fun w' => Level n w w' ∧ Failed n page.id w w' := by
  unfold originCached
  refine ends_bind_of_run (run_page hPage) ?_
  have hFragments : page.context.fragments = w.settings.fragments := by
    obtain ⟨locator, hSame⟩ := hContext
    rw [hSame]
  have hStay : Level n w { w with vault := w.vault } := h.level_vault w.vault
  cases hCompiled : (w.vault.shelf n).has w.vault.now (Identity.compiled page.id) with
  | true =>
    obtain ⟨text, second, hEntry, hLive⟩ := h.tidied.exists_of_has hCompiled
    refine ends_bind_of_run (run_onVault (run_lookup_of_live hEntry hLive)) ?_
    exact ends_pure ⟨hStay, .compiled hEntry hFragments (.refl w)⟩
  | false =>
    cases hFinal : (w.vault.shelf n).has w.vault.now page.id with
    | true =>
      obtain ⟨text, second, hEntry, hLive⟩ := h.tidied.exists_of_has hFinal
      obtain ⟨hFirst, hSecond⟩ := run_lookups_of_final (h.single page.id hId) hEntry hLive
      refine ends_bind_of_run (run_onVault hFirst) ?_
      refine ends_bind_of_run (run_onVault (w := { w with vault := w.vault }) hSecond) ?_
      exact ends_pure ⟨hStay, .final hEntry (.refl w)⟩
    | false =>
      -- both entries are gone before the body runs
      have hMissed : Missed n page.id w.vault := ⟨hCompiled, hFinal⟩
      obtain ⟨hFirst, hSecond⟩ := run_lookups_of_missed h.tidied hMissed
      refine ends_bind_of_run (run_onVault hFirst) ?_
      refine ends_bind_of_run (run_onVault (w := { w with vault := _ }) hSecond) ?_
      have hLevel := h.level_vault (evicted n page.id w.vault)
      have hBody : Ends (originAnew p) { w with vault := evicted n page.id w.vault } _ _ :=
        ends_originAnew hLevel.tended hPage
      refine Ends.mono hBody ?_ fun w' hEnd => ?_
      · rintro origin w' ⟨hNext, hVault, after, text, rfl, hAfter, hSame⟩
        refine ⟨hLevel.trans hNext, .body hMissed hVault hAfter ?_⟩
        rw [hSame]
        exact hContext
      · exact ⟨hLevel.trans hEnd.1, hMissed, hEnd.2⟩

/-! ## The page of a request -/

/-- The page that a request asks for, newly made. -/
def requested (w : World) (place : Place) (request : Bindings) (paths : List String)
    (id : String) : Page :=
  { place, vars := request, context := contextFor w.settings (paths.map Path.ofText), id
    outline := w.outlines.size }

/-- The site with one page more. -/
def opened (w : World) (page : Page) : World :=
  { w with pages := w.pages.push page, outlines := w.outlines.push (Outline.start page.id) }

theorem run_newPage_of_ok {place : Place} {request : Bindings} {id : String}
    (hId : Identity.page (Path.absolute place).print request = .ok id) :
    (newPage place request (contextFor w.settings (paths.map Path.ofText)) []).run w
      = (.ok w.pages.size, opened w (requested w place request paths id)) := by
  unfold newPage
  rw [run_bind_of_ok (run_check hId w)]
  rfl

theorem Governed.withPage (h : Governed n lifetime ids w) (place : Place) (request : Bindings)
    (paths : List String) (id : String) :
    Governed n lifetime ids (opened w (requested w place request paths id)) := by
  have hFits : PageFits (terms (some (.shelf n))) (requested w place request paths id) :=
    ⟨h.directives, h.cache, fun _ _ => ⟨rfl, rfl⟩⟩
  have hStart : Kept (terms (some (.shelf n))) w w := ⟨h.tended, Along.refl w⟩
  have hKept : Kept (terms (some (.shelf n))) w (opened w (requested w place request paths id)) :=
    hStart.push hFits rfl rfl id
  exact ⟨h.cache, h.lifetime, h.directives, h.tidied, hKept.tended, h.single⟩

/-- How the first half of rendering goes. A request that no page can be made for changes nothing. -/
theorem ends_visit (h : Governed n lifetime ids w)
    (hId : ∀ id, pageId w name vars paths useGlobals = .ok id → id ∈ ids) :
    Ends (visit name vars paths useGlobals) w
      (fun found w' => Level n w w' ∧ requestOf w vars useGlobals = .ok found.1
        ∧ ∃ id, pageId w name vars paths useGlobals = .ok id ∧ Found n id w found.2 w')
      fun w' => w' = w ∧ (∀ id, pageId w name vars paths useGlobals ≠ .ok id)
        ∨ Level n w w' ∧ ∃ id, pageId w name vars paths useGlobals = .ok id ∧ Failed n id w w' := by
  unfold visit
  refine ends_get_bind ?_
  dsimp only
  have hRun := run_locate w.settings.locator name (paths.map Path.ofText) w
  cases hPlace : placeAt w.files w.settings.locator name (paths.map Path.ofText) with
  | error fault =>
    rw [hPlace] at hRun
    refine ends_bind_of_run_error hRun (.inl ⟨rfl, fun id hSome => ?_⟩)
    rw [pageId, hPlace] at hSome
    cases hSome
  | ok place =>
  rw [hPlace] at hRun
  refine ends_bind_of_run hRun ?_
  cases hGiven : Bindings.ofRequest vars with
  | error fault =>
    refine ends_bind_of_run_error (run_check_error rfl w) (.inl ⟨rfl, fun id hSome => ?_⟩)
    rw [pageId, hPlace, hGiven] at hSome
    cases hSome
  | ok given =>
  refine ends_bind_of_run (run_check rfl w) ?_
  have hRequest : requestOf w vars useGlobals
      = .ok (if useGlobals then Table.merge w.globals given else given) := by
    rw [requestOf, hGiven]
    rfl
  have hPageId : pageId w name vars paths useGlobals = Identity.page
      (Path.absolute place).print (if useGlobals then Table.merge w.globals given else given) := by
    rw [pageId, hPlace, hGiven]
    rfl
  generalize (if useGlobals then Table.merge w.globals given else given) = request at *
  cases hIdentity : Identity.page (Path.absolute place).print request with
  | error fault =>
    have hNot : (newPage place request (contextFor w.settings (paths.map Path.ofText)) []).run w
        = (.error fault, w) := by
      unfold newPage
      exact run_bind_of_error (run_check_error hIdentity w) _
    refine ends_bind_of_run_error hNot (.inl ⟨rfl, fun id hSome => ?_⟩)
    rw [hPageId, hIdentity] at hSome
    cases hSome
  | ok id =>
  rw [hIdentity] at hPageId
  refine ends_bind_of_run (run_newPage_of_ok hIdentity) ?_
  have hOpened := h.withPage place request paths id
  have hLevel : Level n w (opened w (requested w place request paths id)) :=
    ⟨rfl, rfl, rfl, hOpened.tended⟩
  have hCache : (contextFor w.settings (paths.map Path.ofText)).cache = some (.shelf n) := h.cache
  rw [hCache]
  have hFind := ends_originCached hOpened (Array.getElem?_push_size) (hId id hPageId) ⟨_, rfl⟩
  refine Ends.bind (Ends.mono hFind (fun _ _ hEnd => hEnd) ?_) ?_
  · rintro w' ⟨hNext, hMissed, hVault⟩
    exact .inr ⟨hLevel.trans hNext, id, hPageId, hMissed, hVault⟩
  · rintro origin w' ⟨hNext, hFound⟩
    refine ends_pure ⟨hLevel.trans hNext, hRequest, id, hPageId, ?_⟩
    have hAside : Beside w (opened w (requested w place request paths id)) := ⟨_, _, rfl⟩
    cases hFound with
    | compiled hEntry hFragments hBeside =>
      exact .compiled hEntry hFragments (hAside.trans hBeside)
    | final hEntry hBeside => exact .final hEntry (hAside.trans hBeside)
    | body hMissed hVault hSame hContext => exact .body hMissed hVault hSame hContext

end Visiting

end PageBlocks.Policy
