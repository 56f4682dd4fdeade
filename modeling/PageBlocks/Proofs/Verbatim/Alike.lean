import PageBlocks.Proofs.Deferral.Requests
import PageBlocks.Proofs.Verbatim.Bodies

/-!
# Rendering with other ways of resolving tags

A site resolves the tags of dynamic pages with its fragments. Here the way of doing so is a
parameter (`renderWith`), and two ways are compared: on a site whose bodies defer nothing, a request
runs alike with both, unless a page is marked in the end (`Alike`). Up to then no page is dynamic,
and the cache holds no compiled output of the pages that are asked for (`Lasting`).
-/

set_option autoImplicit false

namespace PageBlocks.Verbatim

open PageBlocks.Body PageBlocks.Cache PageBlocks.Deferral PageBlocks.Running PageBlocks.Site
  PageBlocks.Storage PageBlocks.Upkeep

/-! ## Other ways of resolving tags -/

/-- A way of resolving the tags of a text for a request. -/
abbrev Resolution := Context → Bindings → String → SiteM String

/-- The output of a page that is not in the cache, with a way of resolving tags. -/
def renderAnewWith (resolve : Resolution) (p : Nat) (request : Bindings) : SiteM String := do
  let output ← renderPage Site.prepare p
  let page ← page p
  match page.context.cache with
  | some cache => store cache page output
  | none => pure ()
  if page.isDynamic then resolve page.context request output else return output

/-- The output of a page by way of the cache, with a way of resolving tags. -/
def renderCachedWith (resolve : Resolution) (cache : Ref) (p : Nat) (request : Bindings) :
    SiteM String := do
  let page ← page p
  match ← onVault (cache.lookup (Identity.compiled page.id)) with
  | some compiled => resolve page.context request compiled
  | none =>
    match ← onVault (cache.lookup page.id) with
    | some output => return output
    | none => renderAnewWith resolve p request

/-- Answer a request for the page of a template, with a way of resolving tags. -/
def renderWith (resolve : Resolution) (name : Value) (vars : Value) (paths : List String)
    (useGlobals : Bool) : SiteM String := do
  let w ← get
  let extra := paths.map Path.ofText
  let place ← locate w.settings.locator name extra
  let given ← check (Bindings.ofRequest vars)
  let request := if useGlobals then Table.merge w.globals given else given
  let context := contextFor w.settings extra
  let p ← newPage place request context []
  match context.cache with
  | some cache => renderCachedWith resolve cache p request
  | none => renderAnewWith resolve p request

/-- Sites render with the registered fragments. -/
theorem render_eq_renderWith (name vars : Value) (paths : List String) (useGlobals : Bool) :
    render Site.prepare name vars paths useGlobals
      = renderWith resolveFragments name vars paths useGlobals := rfl

/-- Carry out a request, with a way of resolving the tags of the page that it asks for. -/
def performWith (resolve : Resolution) : Request → SiteM Value
  | .render name vars paths useGlobals =>
    Value.text <$> renderWith resolve name (vars.getD .null) paths useGlobals
  | r => perform r

/-- The answers to requests with a way of resolving tags, and the site after them. -/
def courseWith (resolve : Resolution) : World → List Request → List (Except Fault Value) × World
  | w, [] => ([], w)
  | w, r :: rest =>
    let (answer, w') := (performWith resolve r).run w
    let (answers, w'') := courseWith resolve w' rest
    (answer :: answers, w'')

/-- The answers to requests and the site after them. -/
def course : World → List Request → List (Except Fault Value) × World :=
  courseWith resolveFragments

theorem performWith_resolveFragments (r : Request) :
    performWith resolveFragments r = perform r := by
  cases r <;> rfl

theorem course_fst (w : World) (history : List Request) :
    (course w history).1 = answers w history := by
  induction history generalizing w with
  | nil => rfl
  | cons r rest ih =>
    have hRest := ih ((perform r).run w).2
    rw [answers, ← hRest, course, courseWith, performWith_resolveFragments]
    rfl

/-! ## What lasts between requests -/

/-- A site in the course of requests for some pages: its bodies still defer nothing, and as long as
no page is marked the cache holds no compiled output of these pages. -/
structure Lasting (start : World) (including : Bool) (ids : List String) (w : World) : Prop where
  files : w.files = start.files
  globals : w.globals = start.globals
  locator : w.settings.locator = start.settings.locator
  directives : w.settings.directives = start.settings.directives
  cache : w.settings.cache = start.settings.cache
  tended : Tended (terms start.settings including) w
  blank : Marked w ∨ ∀ cache, start.settings.cache = some cache → ∀ id ∈ ids, ∀ text,
    ¬ Stored cache w.vault (slot cache (Identity.compiled id)) text

section Course

variable {start w w' : World} {including : Bool} {ids : List String}

/-- A site goes on: it lasts, and what is marked stays so. -/
structure Onward (start : World) (including : Bool) (ids : List String) (w w' : World) : Prop where
  lasting : Lasting start including ids w'
  marked : Marked w → Marked w'

theorem Onward.trans {w'' : World} (h : Onward start including ids w w')
    (h' : Onward start including ids w' w'') : Onward start including ids w w'' :=
  ⟨h'.lasting, fun hMarked => h'.marked (h.marked hMarked)⟩

namespace Lasting

theorem along (h : Lasting start including ids w)
    (hKept : Kept (terms start.settings including) w w') : Onward start including ids w w' := by
  obtain ⟨hTended, hAlong⟩ := hKept
  refine ⟨⟨hAlong.files.trans h.files, hAlong.globals.trans h.globals, ?_, ?_, ?_, hTended, ?_⟩,
    hAlong.marked⟩
  · rw [hAlong.settings]
    exact h.locator
  · rw [hAlong.settings]
    exact h.directives
  · rw [hAlong.settings]
    exact h.cache
  · rw [hAlong.vault]
    exact h.blank.imp_left hAlong.marked

/-- What computing fragments changes does not matter. -/
theorem aside (h : Lasting start including ids w) (hAside : Aside w w') :
    Onward start including ids w w' := by
  have hMarked : Marked w → Marked w' := by
    rintro ⟨p, page, hPage, hDeferred⟩
    exact ⟨p, page, hAside.pages ▸ hPage, hDeferred⟩
  have hWas : Marked w' → Marked w := by
    rintro ⟨p, page, hPage, hDeferred⟩
    exact ⟨p, page, hAside.pages ▸ hPage, hDeferred⟩
  refine ⟨⟨hAside.files.trans h.files, hAside.globals.trans h.globals, ?_, ?_, ?_, ⟨?_, ?_, ?_, ?_⟩,
    ?_⟩, hMarked⟩
  · rw [hAside.settings]
    exact h.locator
  · rw [hAside.settings]
    exact h.directives
  · rw [hAside.settings]
    exact h.cache
  · rw [hAside.pages]
    exact h.tended.pages
  · rw [hAside.outlines]
    exact h.tended.outlines
  · exact fun hIs => h.tended.marks (hWas hIs)
  · rw [hAside.pages]
    exact h.tended.modes.imp_left hMarked
  · rw [hAside.vault]
    exact h.blank.imp_left hMarked

/-- The caches may change as long as no compiled output comes in. -/
theorem restocked (h : Lasting start including ids w) {v : Vault}
    (hBlank : Marked w ∨ ∀ cache, start.settings.cache = some cache → ∀ id ∈ ids, ∀ text,
      ¬ Stored cache v (slot cache (Identity.compiled id)) text) :
    Onward start including ids w { w with vault := v } :=
  ⟨⟨h.files, h.globals, h.locator, h.directives, h.cache,
    ⟨h.tended.pages, h.tended.outlines, h.tended.marks, h.tended.modes⟩, hBlank⟩, id⟩

theorem shed (h : Lasting start including ids w) {v : Vault}
    (hSheds : ∀ cache, start.settings.cache = some cache → Sheds cache w.vault v) :
    Onward start including ids w { w with vault := v } :=
  h.restocked (h.blank.imp_right fun hBlank cache hCache id hMem text hStored =>
    hBlank cache hCache id hMem text (hSheds cache hCache _ text hStored))

end Lasting

/-! ## Runs that go alike -/

/-- A step goes on from a site, with a result of some kind if it goes well. -/
def Goes {α : Type} (start : World) (including : Bool) (ids : List String) (w : World) (x : SiteM α)
    (post : α → World → Prop) : Prop :=
  Ends x w (fun a w' => post a w' ∧ Onward start including ids w w') (Onward start including ids w)

/-- A computation goes on from a site, and another one runs just like it unless a page is marked in
the end. -/
structure Alike {α : Type} (start : World) (including : Bool) (ids : List String) (w : World)
    (x y : SiteM α) : Prop where
  onward : Onward start including ids w (x.run w).2
  same : Marked (x.run w).2 ∨ y.run w = x.run w

variable {α β : Type} {post : α → World → Prop}

theorem Goes.alike_self {x : SiteM α} (h : Goes start including ids w x post) :
    Alike start including ids w x x := by
  refine ⟨?_, .inr rfl⟩
  rcases hRun : x.run w with ⟨fault | a, w'⟩
  · exact h.of_run_error hRun
  · exact (h.of_run hRun).2

/-- What follows a common step may differ if it goes alike. -/
theorem Alike.bind {x : SiteM α} {f g : α → SiteM β} (h : Goes start including ids w x post)
    (hNext : ∀ a w', post a w' → Lasting start including ids w' →
      Alike start including ids w' (f a) (g a)) :
    Alike start including ids w (x >>= f) (x >>= g) := by
  rcases hRun : x.run w with ⟨fault | a, w'⟩
  · have hOnward := h.of_run_error hRun
    have hFails : ∀ k : α → SiteM β, (x >>= k).run w = (.error fault, w') := by
      intro k
      rw [run_bind, hRun]
    refine ⟨?_, .inr ((hFails g).trans (hFails f).symm)⟩
    rw [hFails f]
    exact hOnward
  · obtain ⟨hPost, hOnward⟩ := h.of_run hRun
    obtain ⟨hFollows, hSame⟩ := hNext a w' hPost hOnward.lasting
    have hRuns : ∀ k : α → SiteM β, (x >>= k).run w = (k a).run w' :=
      fun k => run_bind_of_ok hRun k
    refine ⟨?_, ?_⟩
    · rw [hRuns f]
      exact hOnward.trans hFollows
    · rw [hRuns f, hRuns g]
      exact hSame

theorem Alike.map {x y : SiteM α} {f : α → β} (h : Alike start including ids w x y) :
    Alike start including ids w (f <$> x) (f <$> y) := by
  have hWorld : ∀ z : SiteM α, ((f <$> z).run w).2 = (z.run w).2 := by
    intro z
    rw [run_map]
    rcases z.run w with ⟨fault | a, w'⟩ <;> rfl
  refine ⟨hWorld x ▸ h.onward, ?_⟩
  rcases h.same with hMarked | hSame
  · exact .inl (hWorld x ▸ hMarked)
  · refine .inr ?_
    rw [run_map, run_map, hSame]

theorem goes_of_upholds {x : SiteM α} {mid : α → Prop} (hLasting : Lasting start including ids w)
    (h : Upholds (Kept (terms start.settings including) w) x mid) :
    Goes start including ids w x fun a w' =>
      mid a ∧ Kept (terms start.settings including) w w' :=
  Ends.mono (h w ⟨hLasting.tended, Along.refl w⟩)
    (fun _ _ hEnd => ⟨hEnd, hLasting.along hEnd.2⟩) fun _ hEnd => hLasting.along hEnd

/-- Once a page is marked, tags may be resolved in any way. -/
theorem alike_resolve {context : Context} {request : Bindings} {text : String}
    (hLasting : Lasting start including ids w) (hMarked : Marked w) (resolve : Resolution) :
    Alike start including ids w (resolveFragments context request text)
      (resolve context request text) := by
  have hAside : StaysAside (resolveFragments context request text) :=
    staysAside_resolve context.fragments request text
  have hOnward := hLasting.aside (hAside.run w)
  exact ⟨hOnward, .inl (hOnward.marked hMarked)⟩

/-! ## Rendering -/

variable {p : Nat} {request : Bindings}

theorem goes_onVault {x : VaultM α} {well : α → Prop} (hLasting : Lasting start including ids w)
    (h : Ends x w.vault
      (fun a v => well a ∧ ∀ cache, start.settings.cache = some cache → Sheds cache w.vault v)
      fun v => ∀ cache, start.settings.cache = some cache → Sheds cache w.vault v) :
    Goes start including ids w (onVault x) fun a w' => well a ∧ w'.pages = w.pages := by
  refine Ends.mono (ends_onVault h) ?_ ?_
  · rintro a w' ⟨v, ⟨hWell, hSheds⟩, rfl⟩
    exact ⟨⟨hWell, rfl⟩, hLasting.shed hSheds⟩
  · rintro w' ⟨v, hSheds, rfl⟩
    exact hLasting.shed hSheds

theorem goes_lookup {cache : Ref} (key : String) (hLasting : Lasting start including ids w)
    (hCache : start.settings.cache = some cache) :
    Goes start including ids w (onVault (cache.lookup key)) fun found w' =>
      (∀ text, found = some text → Stored cache w.vault (slot cache key) text)
        ∧ w'.pages = w.pages := by
  have hSheds : ∀ other, start.settings.cache = some other →
      Sheds other w.vault (afterFetch cache key w.vault) := by
    intro other hOther
    rw [hCache] at hOther
    cases hOther
    exact sheds_afterFetch cache key w.vault
  refine goes_onVault hLasting ?_
  have hRun := run_lookup cache key w.vault
  cases hEntry : entry cache key w.vault with
  | ok found =>
    rw [hEntry] at hRun
    refine ends_of_run hRun ⟨fun text hText => ?_, hSheds⟩
    exact stored_of_entry (hText ▸ hEntry)
  | error fault =>
    rw [hEntry] at hRun
    exact ends_of_run_error hRun hSheds

/-- A page of such a site is dynamic only if a page is marked. -/
theorem marked_of_isDynamic {page : Page} (hLasting : Lasting start including ids w)
    (hPage : w.pages[p]? = some page) (hDynamic : page.isDynamic = true) : Marked w := by
  rcases hLasting.tended.modes with hMarked | hModes
  · exact hMarked
  · have hMode := hModes p page hPage
    simp only [terms, ne_eq, decide_not, Bool.not_eq_true', decide_eq_false_iff_not] at hMode
    rw [Page.isDynamic, Bool.or_eq_true, decide_eq_true_eq] at hDynamic
    exact ⟨p, page, hPage, hDynamic.resolve_right hMode⟩

/-- The output of a page that is not dynamic goes under its final key. -/
theorem goes_store {cache : Ref} {page : Page} {output : String}
    (hLasting : Lasting start including ids w) (hCache : start.settings.cache = some cache)
    (hSeparate : Separate cache ids) (hId : page.id ∈ ids) (hPage : w.pages[p]? = some page) :
    Goes start including ids w (store cache page output) fun _ w' => w'.pages = w.pages := by
  have hStay : Onward start including ids w w := ⟨hLasting, id⟩
  unfold store
  split
  · exact ends_pure ⟨rfl, hStay⟩
  · have hGains : ∀ v, Gains cache (if page.isDynamic = true then Identity.compiled page.id
        else page.id) output w.vault v → Onward start including ids w { w with vault := v } := by
      intro v hGains
      refine hLasting.restocked ?_
      cases hDynamic : page.isDynamic with
      | true => exact .inl (marked_of_isDynamic hLasting hPage hDynamic)
      | false =>
        rw [hDynamic] at hGains
        refine hLasting.blank.imp_right fun hBlank other hOther id hMem text hStored => ?_
        rw [hCache] at hOther
        cases hOther
        rcases hGains _ text hStored with hOld | ⟨hSpot, -⟩
        · exact hBlank cache hCache id hMem text hOld
        · exact hSeparate page.id hId id hMem hSpot.symm
    refine Ends.mono (ends_onVault (ends_put cache _ output _ w.vault)) ?_ ?_
    · rintro _ w' ⟨v, hStored, rfl⟩
      exact ⟨rfl, hGains v hStored⟩
    · rintro w' ⟨v, hStored, rfl⟩
      exact hGains v hStored

theorem goes_page (hLasting : Lasting start including ids w) {page : Page}
    (hPage : w.pages[p]? = some page) :
    Goes start including ids w (Site.page p) fun found w' => found = page ∧ w' = w :=
  ends_of_run (run_page hPage) ⟨⟨rfl, rfl⟩, hLasting, id⟩

variable {resolve : Resolution}

theorem alike_renderAnew {page : Page} (hQuiet : DefersNothing start including)
    (hLasting : Lasting start including ids w) (hPage : w.pages[p]? = some page)
    (hId : page.id ∈ ids) (hContext : page.context.cache = start.settings.cache)
    (hSeparate : ∀ cache, start.settings.cache = some cache → Separate cache ids) :
    Alike start including ids w (renderAnewWith resolveFragments p request)
      (renderAnewWith resolve p request) := by
  unfold renderAnewWith
  have hRender := upholds_renderPage (prepares_of_defersNothing hQuiet) hLasting.files p
  refine Alike.bind (goes_of_upholds hLasting hRender) ?_
  rintro output w₁ ⟨-, hKept₁⟩ hLasting₁
  obtain ⟨after, hAfter, hLater⟩ := hKept₁.along.pages p page hPage
  refine Alike.bind (goes_page hLasting₁ hAfter) ?_
  rintro found w₂ ⟨rfl, rfl⟩ -
  have hShow : ∀ w', Lasting start including ids w' → w'.pages = w₂.pages →
      Alike start including ids w' (if found.isDynamic then
        resolveFragments found.context request output else return output)
        (if found.isDynamic then resolve found.context request output else return output) := by
    intro w' hLasting' hPages
    cases hDynamic : found.isDynamic with
    | true =>
      have hFound : w'.pages[p]? = some found := hPages ▸ hAfter
      exact alike_resolve hLasting' (marked_of_isDynamic hLasting' hFound hDynamic) resolve
    | false => exact ⟨⟨hLasting', id⟩, .inr rfl⟩
  rw [hLater.context, hContext]
  cases hCache : start.settings.cache with
  | some cache =>
    have hStore : Goes start including ids w₂ (store cache found output)
        fun _ w' => w'.pages = w₂.pages :=
      goes_store hLasting₁ hCache (hSeparate cache hCache) (hLater.id ▸ hId) hAfter
    exact Alike.bind hStore fun _ w' hPages hLasting' => hLater.context ▸ hShow w' hLasting' hPages
  | none => exact hLater.context ▸ hShow w₂ hLasting₁ rfl

theorem alike_renderCached {cache : Ref} {page : Page} (hQuiet : DefersNothing start including)
    (hLasting : Lasting start including ids w) (hPage : w.pages[p]? = some page)
    (hId : page.id ∈ ids) (hContext : page.context.cache = start.settings.cache)
    (hCache : start.settings.cache = some cache)
    (hSeparate : ∀ cache, start.settings.cache = some cache → Separate cache ids) :
    Alike start including ids w (renderCachedWith resolveFragments cache p request)
      (renderCachedWith resolve cache p request) := by
  unfold renderCachedWith
  refine Alike.bind (goes_page hLasting hPage) ?_
  rintro found w₁ ⟨rfl, rfl⟩ -
  refine Alike.bind (goes_lookup _ hLasting hCache) ?_
  rintro compiled w₂ ⟨hStored, hPages₂⟩ hLasting₂
  cases compiled with
  | some text =>
    -- compiled output of a page that was asked for is there only if a page was marked
    have hFound := hStored text rfl
    rcases hLasting.blank with ⟨q, other, hOther, hDeferred⟩ | hBlank
    · exact alike_resolve hLasting₂ ⟨q, other, hPages₂ ▸ hOther, hDeferred⟩ resolve
    · exact absurd hFound (hBlank cache hCache found.id hId text)
  | none =>
    refine Alike.bind (goes_lookup _ hLasting₂ hCache) ?_
    rintro final w₃ ⟨-, hPages₃⟩ hLasting₃
    cases final with
    | some text => exact ⟨⟨hLasting₃, id⟩, .inr rfl⟩
    | none =>
      have hPage₃ : w₃.pages[p]? = some found := hPages₃ ▸ hPages₂ ▸ hPage
      exact alike_renderAnew hQuiet hLasting₃ hPage₃ hId hContext hSeparate

end Course

end PageBlocks.Verbatim
