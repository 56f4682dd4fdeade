import PageBlocks.Proofs.Deferral.Bodies
import PageBlocks.Proofs.Deferral.Fragments
import PageBlocks.Proofs.Stock

/-!
# Requests that leave no tags unresolved

What a site answers to a request for a page holds no tag, whatever was asked of it before, if the
bodies of its templates keep to the roles of names (`render_unmarked`). The caches carry that from
one request to the next: they hold tags at most in the compiled output of pages that were asked for,
and such output is resolved whenever it is handed out (`Stocked`).
-/

set_option autoImplicit false

namespace PageBlocks.Deferral

open PageBlocks.Body PageBlocks.Cache PageBlocks.Running PageBlocks.Site PageBlocks.Storage

/-! ## What holds between requests -/

/-- All texts in a cache are laid out, with tags at most where the compiled output of one of some
pages belongs. -/
def Stocked (cache : Ref) (ids : List String) (v : Vault) : Prop :=
  ∀ spot text, Stored cache v spot text → Laid true text.toList
    ∧ (Laid false text.toList ∨ ∃ id ∈ ids, spot = slot cache (Identity.compiled id))

/-- The final output of some pages never has the spot of the compiled output of one of them. -/
def Separate (cache : Ref) (ids : List String) : Prop :=
  ∀ id ∈ ids, ∀ other ∈ ids, slot cache id ≠ slot cache (Identity.compiled other)

/-- A site in the course of requests for some pages: nothing that a page is made from has changed,
and pages and the cache keep track of their tags. -/
structure Steady (start : World) (active : List Nat) (ids : List String) (w : World) : Prop where
  held : Held start active w
  settings : w.settings = start.settings
  globals : w.globals = start.globals
  responses : CleanResponses w
  stocked : ∀ cache, start.settings.cache = some cache → Stocked cache ids w.vault

section Steady

variable {start w w' : World} {active : List Nat} {ids : List String}

namespace Steady

theorem inactive (h : Steady start active ids w) : Steady start [] ids w :=
  ⟨h.held.inactive, h.settings, h.globals, h.responses, h.stocked⟩

theorem since (h : Steady start active ids w) {more : List Nat} (hHeld : Held start more w')
    (hSince : Since w w') : Steady start more ids w' := by
  refine ⟨hHeld, hSince.settings.trans h.settings, hSince.globals.trans h.globals, ?_, ?_⟩
  · intro entry hMem
    exact h.responses entry (hSince.responses ▸ hMem)
  · intro cache hCache
    rw [hSince.vault]
    exact h.stocked cache hCache

theorem aside (h : Steady start active ids w) (hAside : Aside w w') :
    Steady start active ids w' := by
  obtain ⟨hFiles, hPages, hOutlines, hFound, hOwn, hApart⟩ := h.held
  refine ⟨⟨hAside.files.trans hFiles, ?_, ?_, ?_, ?_, ?_⟩, hAside.settings.trans h.settings,
    hAside.globals.trans h.globals, hAside.responses h.responses, fun cache hCache => ?_⟩
  · rw [hAside.pages, hAside.outlines]
    exact hPages
  · rw [hAside.outlines]
    exact hOutlines
  · rw [hAside.pages]
    exact hFound
  · rw [hAside.pages, hAside.outlines]
    exact hOwn
  · rw [hAside.pages]
    exact hApart
  · rw [hAside.vault]
    exact h.stocked cache hCache

theorem restocked (h : Steady start active ids w) {v : Vault}
    (hStocked : ∀ cache, start.settings.cache = some cache → Stocked cache ids v) :
    Steady start active ids { w with vault := v } :=
  ⟨⟨h.held.files, h.held.pages, h.held.outlines, h.held.found, h.held.own, h.held.apart⟩,
    h.settings, h.globals, h.responses, hStocked⟩

end Steady

/-- A step of a site keeps it steady. -/
def Steadily {α : Type} (start : World) (active : List Nat) (ids : List String) (w : World)
    (x : SiteM α) (post : α → World → Prop) : Prop :=
  Ends x w (fun a w' => Steady start active ids w' ∧ post a w') (Steady start [] ids)

variable {α β : Type} {post : α → World → Prop}

theorem Safe.steadily {x : SiteM α} (h : Safe start active w x post)
    (hSteady : Steady start active ids w) :
    Steadily start active ids w x fun a w' => Since w w' ∧ post a w' := by
  refine Ends.mono h (fun a w' hEnd => ?_) fun w' hEnd => ?_
  · obtain ⟨hHeld, hSince, hPost⟩ := hEnd
    exact ⟨hSteady.since hHeld hSince, hSince, hPost⟩
  · exact hSteady.since hEnd.1 hEnd.2

theorem Gives.steadily {x : SiteM α} {mid : α → Prop} (h : Gives w x mid)
    (hSteady : Steady start active ids w) :
    Steadily start active ids w x fun a w' => mid a ∧ w' = w := by
  refine Ends.mono h (fun a w' hEnd => ?_) fun w' hEnd => ?_
  · obtain ⟨hMid, rfl⟩ := hEnd
    exact ⟨hSteady, hMid, rfl⟩
  · subst hEnd
    exact hSteady.inactive

theorem Steadily.bind {x : SiteM α} {f : α → SiteM β} {next : β → World → Prop}
    (h : Steadily start active ids w x post)
    (hNext : ∀ a w', Steady start active ids w' → post a w' →
      Steadily start active ids w' (f a) next) :
    Steadily start active ids w (x >>= f) next :=
  Ends.bind h fun a w' hMid => hNext a w' hMid.1 hMid.2

theorem Steadily.inactive {x : SiteM α} (h : Steadily start active ids w x post) :
    Steadily start [] ids w x post :=
  Ends.mono h (fun _ _ hEnd => ⟨hEnd.1.inactive, hEnd.2⟩) fun _ hEnd => hEnd

/-! ## Using the cache -/

/-- What only takes texts away from the cache keeps the site steady. -/
theorem steadily_onVault {x : VaultM α} {well : α → Prop} (hSteady : Steady start active ids w)
    (h : Ends x w.vault
      (fun a v => well a ∧ ∀ cache, start.settings.cache = some cache → Sheds cache w.vault v)
      fun v => ∀ cache, start.settings.cache = some cache → Sheds cache w.vault v) :
    Steadily start active ids w (onVault x) fun a w' => well a ∧ w'.pages = w.pages := by
  have hAfter : ∀ v, (∀ cache, start.settings.cache = some cache → Sheds cache w.vault v) →
      Steady start active ids { w with vault := v } := by
    intro v hSheds
    refine hSteady.restocked fun cache hCache spot text hStored => ?_
    exact hSteady.stocked cache hCache spot text (hSheds cache hCache spot text hStored)
  refine Ends.mono (ends_onVault h) ?_ ?_
  · rintro a w' ⟨v, ⟨hWell, hSheds⟩, rfl⟩
    exact ⟨hAfter v hSheds, hWell, rfl⟩
  · rintro w' ⟨v, hSheds, rfl⟩
    exact (hAfter v hSheds).inactive

/-- A lookup gives a text that the cache holds. -/
theorem steadily_lookup {cache : Ref} {key : String} (hSteady : Steady start active ids w)
    (hCache : start.settings.cache = some cache) :
    Steadily start active ids w (onVault (cache.lookup key)) fun found w' =>
      (∀ text, found = some text → Stored cache w.vault (slot cache key) text)
        ∧ w'.pages = w.pages := by
  have hSheds : ∀ other, start.settings.cache = some other →
      Sheds other w.vault (afterFetch cache key w.vault) := by
    intro other hOther
    rw [hCache] at hOther
    cases hOther
    exact sheds_afterFetch cache key w.vault
  refine steadily_onVault hSteady ?_
  have hRun := run_lookup cache key w.vault
  cases hEntry : entry cache key w.vault with
  | ok found =>
    rw [hEntry] at hRun
    refine ends_of_run hRun ⟨fun text hText => ?_, hSheds⟩
    exact stored_of_entry (hText ▸ hEntry)
  | error fault =>
    rw [hEntry] at hRun
    exact ends_of_run_error hRun hSheds

/-- A text may be stored that has no tags or is compiled output of one of the pages. -/
theorem steadily_put {cache : Ref} {key content : String} {lifetime : Option Value}
    (hSteady : Steady start active ids w) (hCache : start.settings.cache = some cache)
    (hLaid : Laid true content.toList)
    (hKey : Laid false content.toList ∨ ∃ id ∈ ids, key = Identity.compiled id) :
    Steadily start active ids w (onVault (cache.put key content lifetime)) fun _ w' =>
      w'.pages = w.pages := by
  have hGains : ∀ v, Gains cache key content w.vault v →
      Steady start active ids { w with vault := v } := by
    intro v hGains
    refine hSteady.restocked fun other hOther => ?_
    rw [hCache] at hOther
    cases hOther
    intro spot text h
    rcases hGains spot text h with hOld | ⟨rfl, rfl⟩
    · exact hSteady.stocked cache hCache spot text hOld
    · refine ⟨hLaid, hKey.imp_right ?_⟩
      rintro ⟨id, hMem, rfl⟩
      exact ⟨id, hMem, rfl⟩
  refine Ends.mono (ends_onVault (ends_put cache key content lifetime w.vault)) ?_ ?_
  · rintro _ w' ⟨v, hStored, rfl⟩
    exact ⟨hGains v hStored, rfl⟩
  · rintro w' ⟨v, hStored, rfl⟩
    exact (hGains v hStored).inactive

/-! ## Rendering -/

/-- A site before the first request: its bodies keep to the roles of names, no STX comes in from
anywhere, and nothing is cached that holds tags. -/
structure Tidy (start : World) (loose : List String) : Prop where
  roles : KeepsRoles start loose
  fragments : GivesClean start.settings.fragments
  globals : CleanBindings start.globals
  responses : CleanResponses start
  pages : start.pages = #[]
  outlines : start.outlines = #[]
  cached : ∀ cache, start.settings.cache = some cache →
    ∀ spot text, Stored cache start.vault spot text → Laid false text.toList

variable {loose : List String} {p : Nat} {request : Bindings}

theorem PageLaid.cache_eq {settings : Context} {page : Page} (h : PageLaid settings page) :
    page.context.cache = settings.cache := by
  have hSame := congrArg Context.cache h.context
  exact hSame

theorem PageLaid.fragments_eq {settings : Context} {page : Page} (h : PageLaid settings page) :
    page.context.fragments = settings.fragments := by
  have hSame := congrArg Context.fragments h.context
  exact hSame

/-- Resolving the tags of a page leaves none. -/
theorem steadily_resolve {page : Page} {text : String} (hTidy : Tidy start loose)
    (hSteady : Steady start active ids w) (hPage : w.pages[p]? = some page)
    (hRequest : CleanBindings request) (hText : Laid true text.toList) :
    Steadily start active ids w (resolveFragments page.context request text) fun shown _ =>
      Laid false shown.toList := by
  have hGives : GivesClean page.context.fragments := by
    rw [(hSteady.held.pages p page hPage).1.fragments_eq]
    exact hTidy.fragments
  refine Ends.mono (ends_resolve hGives hRequest hSteady.responses hText) ?_ ?_
  · exact fun shown w' hEnd => ⟨hSteady.aside hEnd.2, hEnd.1⟩
  · exact fun w' hEnd => (hSteady.aside hEnd).inactive

/-- The output of a page is stored where texts like it belong. -/
theorem steadily_store {cache : Ref} {page : Page} {output : String}
    (hSteady : Steady start active ids w) (hCache : start.settings.cache = some cache)
    (hId : page.id ∈ ids) (hOutput : Laid page.deferred output.toList) :
    Steadily start active ids w (store cache page output) fun _ w' => w'.pages = w.pages := by
  unfold store
  split
  · exact ends_pure ⟨hSteady, rfl⟩
  · refine steadily_put hSteady hCache hOutput.tagged ?_
    cases hDynamic : page.isDynamic with
    | true => exact .inr ⟨page.id, hId, rfl⟩
    | false =>
      have hPlain : page.deferred = false := by
        rw [Page.isDynamic, Bool.or_eq_false_iff] at hDynamic
        exact hDynamic.1
      rw [hPlain] at hOutput
      exact .inl hOutput

/-- The output of a page that is not in the cache has no tags when it is handed out. -/
theorem steadily_renderAnew {page : Page} (hTidy : Tidy start loose)
    (hSteady : Steady start active ids w) (hActive : p ∈ active) (hPage : w.pages[p]? = some page)
    (hId : page.id ∈ ids) (hRequest : CleanBindings request) :
    Steadily start active ids w (renderAnew Site.prepare p request) fun text _ =>
      Laid false text.toList := by
  unfold renderAnew
  have hRender := safe_renderPage (preparesSafely hTidy.roles) hSteady.held hActive
  refine Steadily.bind (hRender.steadily hSteady) fun output w₁ hSteady₁ hMid => ?_
  obtain ⟨hSince, hOutput⟩ := hMid
  obtain ⟨after, hAfter, hSameId, -⟩ := hSince.pages p page hPage
  refine Steadily.bind ((gives_page w₁ p).steadily hSteady₁) fun found w₂ _ hFound => ?_
  obtain ⟨hFound, rfl⟩ := hFound
  rw [hAfter] at hFound
  cases hFound
  rw [mayTag_eq hAfter] at hOutput
  have hShow : ∀ w' : World, Steady start active ids w' → w'.pages = w₂.pages →
      Steadily start active ids w' (if after.isDynamic then
        resolveFragments after.context request output else return output) fun text _ =>
          Laid false text.toList := by
    intro w' hSteady' hPages
    cases hDynamic : after.isDynamic with
    | true =>
      exact steadily_resolve hTidy hSteady' (hPages ▸ hAfter) hRequest hOutput.tagged
    | false =>
      have hPlain : after.deferred = false := by
        rw [Page.isDynamic, Bool.or_eq_false_iff] at hDynamic
        exact hDynamic.1
      rw [hPlain] at hOutput
      exact ends_pure ⟨hSteady', hOutput⟩
  cases hCache : after.context.cache with
  | some cache =>
    rw [(hSteady₁.held.pages p after hAfter).1.cache_eq] at hCache
    refine Steadily.bind (steadily_store hSteady₁ hCache (hSameId ▸ hId) hOutput) ?_
    exact fun _ w' hSteady' hPages => hShow w' hSteady' hPages
  | none => exact hShow w₂ hSteady₁ rfl

/-- So has the output of a page that may be in the cache. -/
theorem steadily_renderCached {cache : Ref} {page : Page} (hTidy : Tidy start loose)
    (hSteady : Steady start active ids w) (hCache : start.settings.cache = some cache)
    (hSeparate : Separate cache ids) (hActive : p ∈ active) (hPage : w.pages[p]? = some page)
    (hId : page.id ∈ ids) (hRequest : CleanBindings request) :
    Steadily start active ids w (renderCached Site.prepare cache p request) fun text _ =>
      Laid false text.toList := by
  unfold renderCached
  refine Steadily.bind ((gives_page w p).steadily hSteady) fun found w₁ _ hFound => ?_
  obtain ⟨hFound, rfl⟩ := hFound
  rw [hPage] at hFound
  cases hFound
  have hStocked := hSteady.stocked cache hCache
  refine Steadily.bind (steadily_lookup hSteady hCache) fun compiled w₂ hSteady₂ hCompiled => ?_
  obtain ⟨hStored, hPages₂⟩ := hCompiled
  have hPage₂ : w₂.pages[p]? = some page := hPages₂ ▸ hPage
  cases compiled with
  | some text =>
    exact steadily_resolve hTidy hSteady₂ hPage₂ hRequest (hStocked _ _ (hStored text rfl)).1
  | none =>
    have hStocked₂ := hSteady₂.stocked cache hCache
    refine Steadily.bind (steadily_lookup hSteady₂ hCache) fun final w₃ hSteady₃ hFinal => ?_
    obtain ⟨hStored₃, hPages₃⟩ := hFinal
    cases final with
    | some text =>
      refine ends_pure ⟨hSteady₃, ?_⟩
      rcases (hStocked₂ _ _ (hStored₃ text rfl)).2 with hPlain | ⟨other, hOther, hSpot⟩
      · exact hPlain
      · exact absurd hSpot (hSeparate page.id hId other hOther)
    | none => exact steadily_renderAnew hTidy hSteady₃ hActive (hPages₃ ▸ hPage₂) hId hRequest

/-- The identity of the page that a request asks for. -/
def pageId (w : World) (name vars : Value) (paths : List String) (useGlobals : Bool) :
    Except Fault String := do
  let place ← placeAt w.files w.settings.locator name (paths.map Path.ofText)
  let given ← Bindings.ofRequest vars
  Identity.page (Path.absolute place).print
    (if useGlobals then Table.merge w.globals given else given)

/-- A request for a page is answered with a text without tags. -/
theorem steadily_render {name vars : Value} {paths : List String} {useGlobals : Bool}
    (hTidy : Tidy start loose) (hSteady : Steady start [] ids w)
    (hSeparate : ∀ cache, start.settings.cache = some cache → Separate cache ids)
    (hVars : vars.isClean = true)
    (hId : ∀ id, pageId start name vars paths useGlobals = .ok id → id ∈ ids) :
    Steadily start [] ids w (render Site.prepare name vars paths useGlobals) fun text _ =>
      Laid false text.toList := by
  unfold render
  refine ends_get_bind ?_
  dsimp only
  refine Steadily.bind ((gives_locate _ _ _).steadily hSteady) fun place w₁ _ hPlace => ?_
  obtain ⟨hPlace, rfl⟩ := hPlace
  refine Steadily.bind ((gives_check _).steadily hSteady) fun given w₁ _ hGiven => ?_
  obtain ⟨hGiven, rfl⟩ := hGiven
  have hRequest : CleanBindings (if useGlobals then Table.merge w₁.globals given else given) := by
    have hOwn : CleanBindings given := closed_isClean.ofRequest hVars hGiven
    split
    · rw [hSteady.globals]
      exact hTidy.globals.merge hOwn
    · exact hOwn
  have hContext : contextFor w₁.settings (paths.map Path.ofText)
      = { start.settings with
          locator := (contextFor w₁.settings (paths.map Path.ofText)).locator } := by
    rw [hSteady.settings]
    rfl
  refine Steadily.bind ((safe_newPage hSteady.held hRequest hContext).steadily hSteady) ?_
  rintro p w₂ hSteady₂ ⟨-, hHeld₂, -, page, hPage, -, hSame, hIdentity⟩
  have hMember : page.id ∈ ids := by
    refine hId page.id ?_
    unfold pageId
    rw [hSteady.held.files, hSteady.settings] at hPlace
    rw [hPlace, hGiven]
    rw [hSteady.globals] at hIdentity
    exact hIdentity
  have hActive : Steady start [p] ids w₂ := hSteady₂.since hHeld₂ (Since.refl w₂)
  have hCacheOf : (contextFor w₁.settings (paths.map Path.ofText)).cache
      = start.settings.cache := by
    rw [contextFor, hSteady.settings]
  rw [hCacheOf]
  cases hCache : start.settings.cache with
  | some cache =>
    exact (steadily_renderCached hTidy hActive hCache (hSeparate cache hCache) List.mem_cons_self
      hPage hMember hRequest).inactive
  | none =>
    exact (steadily_renderAnew hTidy hActive List.mem_cons_self hPage hMember hRequest).inactive

/-! ## Histories -/

/-- A request in the ordinary course of a site: one for a page, with clean variables, or one that
moves the clock or takes entries out of the cache. -/
inductive IsRoutine : Request → Prop where
  | render {name : Value} {vars : Option Value} {paths : List String} {useGlobals : Bool}
      (h : (vars.getD .null).isClean = true) : IsRoutine (.render name vars paths useGlobals)
  | advance (micros : Int) : IsRoutine (.cache (.advance micros))
  | delete (key : String) : IsRoutine (.cache (.delete key))
  | clear : IsRoutine (.cache .clear)

/-- The identity of the page that a request asks for, if it asks for one. -/
def pageIdOf (w : World) : Request → Option String
  | .render name vars paths useGlobals =>
    (pageId w name (vars.getD .null) paths useGlobals).toOption
  | _ => none

/-- Whether an answer is not a text with the opening marker of a tag. -/
def isUnmarked : Except Fault Value → Bool
  | .ok (.text s) => !Fragment.isMarked s
  | _ => true

/-- The answers to requests, in order. -/
def answers : World → List Request → List (Except Fault Value)
  | _, [] => []
  | w, r :: rest => ((perform r).run w).1 :: answers ((perform r).run w).2 rest

/-- Moving the clock takes nothing out of a cache and puts nothing in. -/
theorem sheds_advanced (cache : Ref) (micros : Int) (v : Vault) :
    Sheds cache v { v with now := v.now.addMicros micros } := by
  intro spot text h
  cases cache <;> exact h

theorem ends_performRef {cache : Ref} {request : Cache.Request} (v : Vault)
    (hRoutine : IsRoutine (.cache request)) :
    Ends (cache.perform request) v (fun answer v' => answer = .null ∧ Sheds cache v v')
      (Sheds cache v) := by
  cases hRoutine with
  | advance micros =>
    exact ends_modify_bind (ends_pure ⟨rfl, sheds_advanced cache micros v⟩)
  | delete key => exact Ends.bind (ends_delete cache key v) fun _ _ h => ends_pure ⟨rfl, h⟩
  | clear => exact Ends.bind (ends_clear cache v) fun _ _ h => ends_pure ⟨rfl, h⟩

theorem ends_perform {cache? : Option Ref} {request : Cache.Request} (v : Vault)
    (hRoutine : IsRoutine (.cache request)) :
    Ends (Cache.perform cache? request) v
      (fun answer v' => answer = .null ∧ ∀ cache, cache? = some cache → Sheds cache v v')
      fun v' => ∀ cache, cache? = some cache → Sheds cache v v' := by
  cases cache? with
  | some cache =>
    refine Ends.mono (ends_performRef v hRoutine) (fun answer v' hEnd => ⟨hEnd.1, ?_⟩) ?_
    · intro other hOther
      cases hOther
      exact hEnd.2
    · intro v' hEnd other hOther
      cases hOther
      exact hEnd
  | none =>
    cases hRoutine with
    | advance micros => exact ends_modify_bind (ends_pure ⟨rfl, nofun⟩)
    | delete key => exact ends_throw nofun
    | clear => exact ends_throw nofun

theorem steadily_cache {request : Cache.Request} (hSteady : Steady start [] ids w)
    (hRoutine : IsRoutine (.cache request)) :
    Steadily start [] ids w (perform (.cache request)) fun v _ => v = .null := by
  have hVault : Steadily start [] ids w (onVault (Cache.perform w.settings.cache request))
      fun v w' => v = .null ∧ w'.pages = w.pages := by
    refine steadily_onVault hSteady ?_
    rw [← hSteady.settings]
    exact ends_perform w.vault hRoutine
  exact ends_get_bind (Ends.mono hVault (fun _ _ hEnd => ⟨hEnd.1, hEnd.2.1⟩) fun _ => id)

theorem steadily_perform {r : Request} (hTidy : Tidy start loose)
    (hSteady : Steady start [] ids w)
    (hSeparate : ∀ cache, start.settings.cache = some cache → Separate cache ids)
    (hRoutine : IsRoutine r) (hId : ∀ id, pageIdOf start r = some id → id ∈ ids) :
    Steadily start [] ids w (perform r) fun v _ => isUnmarked (.ok v) = true := by
  have hNull : ∀ {v : Value}, v = .null → isUnmarked (.ok v) = true := by
    rintro v rfl
    rfl
  cases hRoutine with
  | @render name vars paths useGlobals hVars =>
    have hMember : ∀ id, pageId start name (vars.getD .null) paths useGlobals = .ok id →
        id ∈ ids := by
      intro id hFound
      refine hId id ?_
      rw [pageIdOf, hFound]
      rfl
    refine Ends.map (Ends.mono (steadily_render hTidy hSteady hSeparate hVars hMember) ?_ ?_)
    · intro text w' hEnd
      exact ⟨hEnd.1, congrArg (!·) (isMarked_eq_false hEnd.2)⟩
    · exact fun _ => id
  | advance micros =>
    exact Ends.mono (steadily_cache hSteady (.advance micros))
      (fun _ _ hEnd => ⟨hEnd.1, hNull hEnd.2⟩) fun _ => id
  | delete key =>
    exact Ends.mono (steadily_cache hSteady (.delete key))
      (fun _ _ hEnd => ⟨hEnd.1, hNull hEnd.2⟩) fun _ => id
  | clear =>
    exact Ends.mono (steadily_cache hSteady .clear)
      (fun _ _ hEnd => ⟨hEnd.1, hNull hEnd.2⟩) fun _ => id

theorem steady_start (hTidy : Tidy start loose) : Steady start [] ids start := by
  have hPages : ∀ (p : Nat) (page : Page), start.pages[p]? ≠ some page := by
    intro p page h
    rw [hTidy.pages] at h
    cases h
  have hOutlines : ∀ (n : Nat) (o : Outline), start.outlines[n]? ≠ some o := by
    intro n o h
    rw [hTidy.outlines] at h
    cases h
  refine ⟨⟨rfl, ?_, ?_, nofun, nofun, nofun⟩, rfl, rfl, hTidy.responses, ?_⟩
  · exact fun p page h => absurd h (hPages p page)
  · exact fun n o h => absurd h (hOutlines n o)
  · intro cache hCache spot text hStored
    have hPlain := hTidy.cached cache hCache spot text hStored
    exact ⟨hPlain.tagged, .inl hPlain⟩

theorem answers_of_steady {history : List Request} (hTidy : Tidy start loose)
    (hSeparate : ∀ cache, start.settings.cache = some cache → Separate cache ids)
    (hSteady : Steady start [] ids w) (hRoutine : ∀ r ∈ history, IsRoutine r)
    (hIds : ∀ r ∈ history, ∀ id, pageIdOf start r = some id → id ∈ ids) :
    (answers w history).all isUnmarked = true := by
  induction history generalizing w with
  | nil => rfl
  | cons r rest ih =>
    rw [List.forall_mem_cons] at hRoutine hIds
    have hEnds := steadily_perform hTidy hSteady hSeparate hRoutine.1 hIds.1
    rw [answers, List.all_cons, Bool.and_eq_true]
    rcases hRun : (perform r).run w with ⟨fault | v, w'⟩
    · exact ⟨rfl, ih (hEnds.of_run_error hRun) hRoutine.2 hIds.2⟩
    · obtain ⟨hNext, hUnmarked⟩ := hEnds.of_run hRun
      exact ⟨hUnmarked, ih hNext hRoutine.2 hIds.2⟩

/-- No text that a site answers with has a tag left, whatever was asked before. -/
theorem answers_unmarked {history : List Request} (hTidy : Tidy start loose)
    (hRoutine : ∀ r ∈ history, IsRoutine r)
    (hSeparate : ∀ cache, start.settings.cache = some cache →
      Separate cache (history.filterMap (pageIdOf start))) :
    (answers start history).all isUnmarked = true :=
  answers_of_steady hTidy hSeparate (steady_start hTidy) hRoutine fun r hMem _ hId =>
    List.mem_filterMap.mpr ⟨r, hMem, hId⟩

end Steady

/-! ## A page that includes another one -/

/-- A body with a fragment for each request, and one that gets it by calling a directive. -/
def filesWith (directive : String) (rest : List Item) : FileTree Source :=
  [(["v", "part"], .items [.text "[",
      .emit (.call (.name "defer") [.literal (.text "var"), .literal (.text "who")] []),
      .text "]"]),
    (["v", "page"], .items (.text "<"
      :: .emit (.call (.name directive) [.literal (.text "part")] []) :: .text ">" :: rest))]

/-- A site with a cache, and with one kind of fragment. -/
def siteWith (files : FileTree Source) : World :=
  let settings := startSettings { paths := [Path.ofText "/v"] } .script (.int 3600)
  { files
    vault := { now := ⟨0⟩, shelves := [[]] }
    settings :=
      { settings with
        cache := some (.shelf 0)
        directives := Table.merge settings.directives (Directive.forCache defaultLifetime)
        fragments := [("var", .constant (.text "me"))] } }

/-- A request for the page of a template without variables. -/
def ask (name : String) : Request := .render (.text name) none [] true

theorem givesClean_constant : GivesClean [("var", .constant (.text "me"))] := by
  intro request payload w w' text _ _ _ hRun
  refine Ends.of_run (?_ : Ends _ w (fun shown _ => Clean shown.toList) fun _ => True) hRun
  unfold Fragment.Registry.invoke Fragment.invokeBy
  split
  · exact ends_throw trivial
  · split
    · exact ends_throw trivial
    · rename_i kind hFound
      have hMem := Table.mem_of_get?_eq_some hFound
      cases List.mem_singleton.mp hMem
      have hValue : ∀ arguments : List Value,
          Ends (Fragment.Kind.compute surroundings request arguments (.constant (.text "me"))) w
            (fun v _ => v = .text "me") fun _ => True := by
        intro arguments
        unfold Fragment.Kind.compute Fragment.alone
        dsimp only
        split
        · exact ends_pure rfl
        · exact ends_throw trivial
      refine Ends.bind (hValue _) fun v w'' hSame => ?_
      subst hSame
      exact ends_pure (by decide)

theorem tidy_siteWith : Tidy (siteWith (filesWith "incl" [])) [] := by
  refine ⟨?_, givesClean_constant, cleanBindings_nil, ?_, rfl, rfl, ?_⟩
  · refine forall_bodyAt_of_items fun entry hMem => ?_
    simp only [siteWith, filesWith, List.mem_cons, List.not_mem_nil, or_false] at hMem
    rcases hMem with rfl | rfl
    · exact ⟨_, rfl, by decide +kernel⟩
    · exact ⟨_, rfl, by decide +kernel⟩
  · exact fun entry hMem => absurd hMem List.not_mem_nil
  · intro cache hCache spot text hStored
    cases hCache
    obtain ⟨entry, hMem, -⟩ := hStored
    exact absurd hMem List.not_mem_nil

/-- Two requests for a page, and time that passes between them. -/
def visits : List Request := [ask "page", .cache (.advance 1), ask "page"]

theorem answers_unmarked_of_include :
    (answers (siteWith (filesWith "incl" [])) visits).all isUnmarked = true := by
  refine answers_unmarked tidy_siteWith ?_ ?_
  · intro r hMem
    simp only [visits, List.mem_cons, List.not_mem_nil, or_false] at hMem
    rcases hMem with rfl | rfl | rfl
    · exact .render rfl
    · exact .advance 1
    · exact .render rfl
  · intro cache hCache
    cases hCache
    have hApart : ∀ id ∈ visits.filterMap (pageIdOf (siteWith (filesWith "incl" []))),
        ∀ other ∈ visits.filterMap (pageIdOf (siteWith (filesWith "incl" []))),
          id ≠ Identity.compiled other := by
      unfold visits ask Identity.compiled
      simp only [List.filterMap_cons, pageIdOf, pageId, Identity.page]
      rw [Identity.digest_eq]
      decide +kernel
    exact hApart

/-- If the cached text of the part is put under the key of its final output, later requests for the
part get it with the tag. -/
theorem tag_served_raw :
    (answers (siteWith (filesWith "cincl" [.emit (.call (.name "end") [] [])]))
      [ask "page", ask "part"]).all isUnmarked = false := by
  decide +kernel

end PageBlocks.Deferral
