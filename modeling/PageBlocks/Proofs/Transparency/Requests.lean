import PageBlocks.Proofs.Transparency.Answers

/-!
# Requests with and without a cache

A request for a page is served if its answer is what the body of the page gives, whether the body
runs for it or not (`Serves`). A site without a cache serves every request (`serves_plain`). A site
with a shelf does so as well, provided that the shelf holds nothing else for the page (`Holds`):
a live entry is handed out (`serves_of_live`), and otherwise the body runs and its output is stored
(`serves_of_missed`). What the shelf holds afterwards is what it held or what the body gives
(`Fed`).
-/

set_option autoImplicit false

namespace PageBlocks.Transparency

open PageBlocks.Body PageBlocks.Cache PageBlocks.Deferral PageBlocks.Number PageBlocks.Policy
  PageBlocks.Running PageBlocks.Site PageBlocks.Storage PageBlocks.Upkeep

/-! ## What requests leave alone -/

/-- A site on which only the pages and the contents of the caches have changed. -/
structure Calm (w w' : World) : Prop where
  files : w'.files = w.files
  globals : w'.globals = w.globals
  settings : w'.settings = w.settings
  now : w'.vault.now = w.vault.now
  responses : w'.responses = w.responses
  counters : w'.counters = w.counters

section Calm

variable {start w w' w'' u u' : World} {page : Page}

theorem Calm.refl (w : World) : Calm w w := ⟨rfl, rfl, rfl, rfl, rfl, rfl⟩

theorem Calm.trans (h : Calm w w') (h' : Calm w' w'') : Calm w w'' :=
  ⟨h'.files.trans h.files, h'.globals.trans h.globals, h'.settings.trans h.settings,
    h'.now.trans h.now, h'.responses.trans h.responses, h'.counters.trans h.counters⟩

theorem Calm.of_beside (h : Beside w w') : Calm w w' := by
  obtain ⟨pages, outlines, rfl⟩ := h
  exact ⟨rfl, rfl, rfl, rfl, rfl, rfl⟩

theorem Calm.of_still (h : Still (opened w page) w') : Calm w w' := by
  refine ⟨h.files, h.globals, h.settings, ?_, h.responses, h.counters⟩
  rw [h.vault]
  rfl

theorem Twin.calm (h : Twin w u) (hCalm : Calm w w') (hCalm' : Calm u u') : Twin w' u' := by
  refine ⟨hCalm'.files.trans (h.files.trans hCalm.files.symm),
    hCalm'.globals.trans (h.globals.trans hCalm.globals.symm), ?_,
    hCalm'.now.trans (h.now.trans hCalm.now.symm),
    hCalm'.responses.trans (h.responses.trans hCalm.responses.symm),
    hCalm'.counters.trans (h.counters.trans hCalm.counters.symm)⟩
  rw [hCalm'.settings, hCalm.settings]
  exact h.settings

theorem Alike.calm (h : Alike start w) (hCalm : Calm w w') : Alike start w' := by
  refine ⟨hCalm.files.trans h.files, hCalm.globals.trans h.globals, ?_⟩
  rw [hCalm.settings]
  exact h.settings

theorem Alike.twin (h : Alike start w) (hTwin : Twin w u) : Alike start u := by
  refine ⟨hTwin.files.trans h.files, hTwin.globals.trans h.globals, ?_⟩
  rw [hTwin.settings, h.settings]

end Calm

section Requests

variable {start w w' u : World} {n : Nat} {lifetime name vars : Value} {ids paths : List String}
  {useGlobals : Bool} {wish : Wish} {id text : String} {page : Page}

/-- What the body of a page gives comes with the identity and the context of the page. -/
theorem drawn_page (hCache : start.settings.cache = some (.shelf n))
    (hDirectives : start.settings.directives = Directive.builtIn) (hId : wish.id = .ok id)
    (h : drawn start wish = some (page, text)) :
    page.id = id ∧ page.context = contextFor start.settings (wish.paths.map Path.ofText) := by
  have hStart : Kept (terms (some (.shelf n))) (bare start) (bare start) :=
    ⟨tended_of_no_pages _ rfl rfl, Along.refl _⟩
  have hFits : PageFits (terms (some (.shelf n))) (wish.page (bare start) id) :=
    ⟨hDirectives, hCache, fun _ _ => ⟨rfl, rfl⟩⟩
  have hOpened : Tended (terms (some (.shelf n)))
      (opened (bare start) (wish.page (bare start) id)) := (hStart.push hFits rfl rfl id).tended
  have hFirst : (opened (bare start) (wish.page (bare start) id)).pages[0]?
      = some (wish.page (bare start) id) := rfl
  have hEnds := ends_originAnew hOpened hFirst
  unfold drawn at h
  rw [hId] at h
  dsimp only at h
  rcases hRun : (originAnew 0).run (opened (bare start) (wish.page (bare start) id)) with
    ⟨fault | origin, w'⟩
  · rw [hRun] at h
    cases h
  · obtain ⟨-, -, after, found, rfl, hSame, hContext⟩ := hEnds.of_run hRun
    rw [hRun] at h
    cases h
    exact ⟨hSame, hContext⟩

/-- Output of a body is stored if there is a cache, and then handed out. -/
theorem conclude_body (request : Bindings) (page : Page) (text : String) :
    conclude request (.body page text)
      = (match page.context.cache with
          | some cache => store cache page text
          | none => pure ()) >>= fun _ =>
        handOut page.context.fragments request page.isDynamic text := by
  unfold conclude
  dsimp only
  cases page.context.cache <;> rfl

/-- A request is answered with what the body of its page gives. -/
structure Serves (start : World) (wish : Wish) (x : SiteM String) (w : World)
    (post : World → Prop) : Prop where
  given : ∀ page text, drawn start wish = some (page, text) → ∃ w',
    x.run w = (handOut start.settings.fragments wish.vars page.isDynamic text).run w'
      ∧ Calm w w' ∧ post w'
  refused : drawn start wish = none → ∃ fault w', x.run w = (.error fault, w') ∧ Calm w w' ∧ post w'

/-- Without a cache every request is served by running the body of its page. -/
theorem serves_plain (hBodies : PlainBodies start.files)
    (hDirectives : start.settings.directives = Directive.builtIn)
    (hCache : start.settings.cache = some (.shelf n)) (hAlike : Alike start u)
    (hNone : u.settings.cache = none) (hWish : wishAt u name vars paths useGlobals = .ok wish)
    (hId : wish.id = .ok id) (hVars : BindingsFit Value.isData wish.vars) :
    Serves start wish (render Site.prepare name vars paths useGlobals) u fun _ => True := by
  have hRender := run_render_of_wish hWish hId
  rw [hNone] at hRender
  obtain ⟨hGiven, hRefused⟩ := run_originAnew hBodies hDirectives hAlike hVars hId
  constructor
  · intro page text hDrawn
    obtain ⟨u', hRun, hStill⟩ := hGiven page text hDrawn
    obtain ⟨-, hContext⟩ := drawn_page hCache hDirectives hId hDrawn
    refine ⟨u', ?_, .of_still hStill, trivial⟩
    rw [hRender]
    refine (run_bind_of_ok hRun _).trans ?_
    rw [hNone, conclude_body]
    unfold Page.shift
    rw [hContext]
    rfl
  · intro hDrawn
    obtain ⟨fault, u', hRun, hStill⟩ := hRefused hDrawn
    exact ⟨fault, u', hRender.trans (run_bind_of_error hRun _), .of_still hStill, trivial⟩

/-! ## With a shelf -/

/-- What a shelf holds for a page is what its body gives. -/
def Holds (start : World) (n : Nat) (wish : Wish) (id : String) (w : World) : Prop :=
  ∀ dynamic text second, (w.vault.shelf n).get? (if dynamic then Identity.compiled id else id)
      = some (Entry.ofContent text second) →
    ∃ page, drawn start wish = some (page, text) ∧ page.isDynamic = dynamic

/-- What a shelf holds after a request for a page: what it held, or what the body of the page
gives. -/
def Fed (start : World) (n : Nat) (wish : Wish) (id : String) (w w' : World) : Prop :=
  ∀ key entry, (w'.vault.shelf n).get? key = some entry →
    (w.vault.shelf n).get? key = some entry
      ∨ ∃ page text second, drawn start wish = some (page, text)
        ∧ entry = Entry.ofContent text second
        ∧ key = if page.isDynamic then Identity.compiled id else id

theorem Fed.of_vault (h : w'.vault = w.vault) : Fed start n wish id w w' := by
  intro key entry hEntry
  rw [h] at hEntry
  exact .inl hEntry

theorem requestOf_of_wish (hWish : wishAt w name vars paths useGlobals = .ok wish) :
    requestOf w vars useGlobals = .ok wish.vars := by
  unfold wishAt at hWish
  obtain ⟨place, -, hWish⟩ := bind_eq_ok hWish
  obtain ⟨request, hRequest, hWish⟩ := bind_eq_ok hWish
  cases hWish
  exact hRequest

/-- A page has a live entry, or none of its entries is live. -/
theorem live_or_missed (hTidied : Tidied n w.vault) (id : String) :
    Missed n id w.vault
      ∨ ∃ (dynamic : Bool) (text : String) (second : Binary64),
        (w.vault.shelf n).get? (if dynamic then Identity.compiled id else id)
          = some (Entry.ofContent text second)
        ∧ (Entry.ofContent text second).isExpired w.vault.now = false := by
  cases hCompiled : (w.vault.shelf n).has w.vault.now (Identity.compiled id) with
  | true => exact .inr ⟨true, hTidied.exists_of_has hCompiled⟩
  | false =>
    cases hFinal : (w.vault.shelf n).has w.vault.now id with
    | true => exact .inr ⟨false, hTidied.exists_of_has hFinal⟩
    | false => exact .inl ⟨hCompiled, hFinal⟩

/-- A live entry is handed out. -/
theorem serves_of_live (h : Governed n lifetime ids w) (hAlike : Alike start w)
    (hWish : wishAt w name vars paths useGlobals = .ok wish) (hId : wish.id = .ok id)
    (hMem : id ∈ ids) (hHolds : Holds start n wish id w) {dynamic : Bool} {second : Binary64}
    (hEntry : (w.vault.shelf n).get? (if dynamic then Identity.compiled id else id)
      = some (Entry.ofContent text second))
    (hLive : (Entry.ofContent text second).isExpired w.vault.now = false) :
    Serves start wish (render Site.prepare name vars paths useGlobals) w
      (Fed start n wish id w) := by
  have hPage : pageId w name vars paths useGlobals = .ok id := by
    rw [pageId_eq_bind, hWish]
    exact hId
  obtain ⟨page, hDrawn, rfl⟩ := hHolds dynamic text second hEntry
  obtain ⟨request, w', hRequest, hBeside, hRun⟩ := run_render_of_live h hPage hMem hEntry hLive
  rw [requestOf_of_wish hWish] at hRequest
  cases hRequest
  constructor
  · intro other more hOther
    rw [hDrawn] at hOther
    cases hOther
    refine ⟨w', ?_, .of_beside hBeside, .of_vault hBeside.vault⟩
    rw [hRun, hAlike.settings]
  · intro hNone
    rw [hDrawn] at hNone
    cases hNone

/-- The site after both entries of a page were looked for in vain. -/
def gone (n : Nat) (id : String) (w : World) : World := { w with vault := evicted n id w.vault }

/-- If no entry of a page is live, both are gone, and its body runs. -/
theorem run_originCached_of_missed (hTidied : Tidied n w.vault) (hMissed : Missed n id w.vault) :
    (originCached (.shelf n) w.pages.size).run (opened w (wish.page w id))
      = (originAnew (gone n id w).pages.size).run
        (opened (gone n id w) (wish.page (gone n id w) id)) := by
  obtain ⟨hFirst, hSecond⟩ := run_lookups_of_missed hTidied hMissed
  have hPage : (opened w (wish.page w id)).pages[w.pages.size]? = some (wish.page w id) :=
    Array.getElem?_push_size
  have hCompiled : (onVault ((Ref.shelf n).lookup (Identity.compiled (wish.page w id).id))).run
      (opened w (wish.page w id)) = _ := run_onVault hFirst
  have hFinal : (onVault ((Ref.shelf n).lookup (wish.page w id).id)).run
      { opened w (wish.page w id) with vault := without n (Identity.compiled id) w.vault } = _ :=
    run_onVault (w := { opened w (wish.page w id) with vault := _ }) hSecond
  unfold originCached
  rw [run_bind_of_ok (run_page hPage), run_bind_of_ok hCompiled]
  dsimp only
  rw [run_bind_of_ok hFinal]
  rfl

/-- Storing the output of a body. -/
theorem run_store_body (hTidied : Tidied n w.vault) {seconds : Binary64}
    (hUsable : lifetimeSeconds page.context.lifetime = .ok seconds) (text : String) :
    ∃ w', (store (.shelf n) page text).run w = (.ok (), w') ∧ Calm w w'
      ∧ ∀ key entry, (w'.vault.shelf n).get? key = some entry →
        (w.vault.shelf n).get? key = some entry
          ∨ ∃ second, entry = Entry.ofContent text second
            ∧ key = if page.isDynamic then Identity.compiled page.id else page.id := by
  unfold store
  split
  · exact ⟨w, rfl, .refl w, fun key entry hEntry => .inl hEntry⟩
  · have hSecond : expirySecond w.vault.now page.context.lifetime
        = .ok (w.vault.now.toSeconds.add seconds) := by
      unfold expirySecond
      rw [hUsable]
      rfl
    have hPut : ((Ref.shelf n).put (if page.isDynamic then Identity.compiled page.id else page.id)
        text (some page.context.lifetime)).run w.vault = (.ok (), stored n _ text _ _ w.vault) :=
      run_put_shelf text hSecond
    refine ⟨_, run_onVault hPut, ⟨rfl, rfl, rfl, rfl, rfl, rfl⟩, ?_⟩
    intro key entry hEntry
    dsimp only at hEntry
    rw [shelf_stored hTidied] at hEntry
    by_cases hKey : key = if page.isDynamic then Identity.compiled page.id else page.id
    · subst hKey
      cases (Table.get?_insert_self _ _ _).symm.trans hEntry
      exact .inr ⟨_, rfl, rfl⟩
    · exact .inl ((Table.get?_insert_of_ne _ _ hKey).symm.trans hEntry)

/-- If no entry of a page is live, its body runs, and its output is stored. -/
theorem serves_of_missed (h : Governed n lifetime ids w) (hBodies : PlainBodies start.files)
    (hDirectives : start.settings.directives = Directive.builtIn)
    (hCache : start.settings.cache = some (.shelf n)) {seconds : Binary64}
    (hUsable : lifetimeSeconds start.settings.lifetime = .ok seconds) (hAlike : Alike start w)
    (hWish : wishAt w name vars paths useGlobals = .ok wish) (hId : wish.id = .ok id)
    (hVars : BindingsFit Value.isData wish.vars) (hMissed : Missed n id w.vault) :
    Serves start wish (render Site.prepare name vars paths useGlobals) w
      (Fed start n wish id w) := by
  have hRender := run_render_of_wish hWish hId
  rw [h.cache] at hRender
  dsimp only at hRender
  have hGone : Alike start (gone n id w) := ⟨hAlike.files, hAlike.globals, hAlike.settings⟩
  have hCalmGone : ∀ {w'}, Calm (gone n id w) w' → Calm w w' :=
    fun hCalm => ⟨hCalm.files, hCalm.globals, hCalm.settings, hCalm.now, hCalm.responses,
      hCalm.counters⟩
  have hOrigin : (originCached (.shelf n) w.pages.size).run (opened w (wish.page w id)) = _ :=
    run_originCached_of_missed h.tidied hMissed
  obtain ⟨hGiven, hRefused⟩ := run_originAnew hBodies hDirectives hGone hVars hId
  constructor
  · intro page text hDrawn
    obtain ⟨w₁, hRun, hStill⟩ := hGiven page text hDrawn
    obtain ⟨hSame, hContext⟩ := drawn_page hCache hDirectives hId hDrawn
    have hVault : w₁.vault = evicted n id w.vault := hStill.vault
    have hTidied : Tidied n w₁.vault := hVault ▸ h.tidied.evicted id
    obtain ⟨after, hAfter⟩ : ∃ after, after = page.shift (gone n id w).pages.size
        (gone n id w).outlines.size (gone n id w).settings.cache := ⟨_, rfl⟩
    rw [← hAfter] at hRun
    have hAfterCache : after.context.cache = some (.shelf n) := by
      rw [hAfter]
      exact h.cache
    have hFragments : after.context.fragments = start.settings.fragments := by
      rw [hAfter, Page.shift, hContext]
      rfl
    have hLifetime : lifetimeSeconds after.context.lifetime = .ok seconds := by
      rw [hAfter, Page.shift, hContext]
      exact hUsable
    have hDynamic : after.isDynamic = page.isDynamic := by
      rw [hAfter]
      rfl
    have hAfterId : after.id = id := by
      rw [hAfter]
      exact hSame
    obtain ⟨w', hStore, hCalm, hStored⟩ := run_store_body hTidied hLifetime text
    refine ⟨w', ?_, hCalmGone ((Calm.of_still hStill).trans hCalm), fun key entry hEntry => ?_⟩
    · rw [hRender]
      refine (run_bind_of_ok (hOrigin.trans hRun) _).trans ?_
      rw [conclude_body, hAfterCache, hFragments, hDynamic]
      exact run_bind_of_ok hStore _
    · rcases hStored key entry hEntry with hOld | ⟨second, hText, hKey⟩
      · exact .inl ((unfed_of_evicted h.tidied hVault).entries key entry hOld)
      · rw [hDynamic, hAfterId] at hKey
        exact .inr ⟨page, text, second, hDrawn, hText, hKey⟩
  · intro hDrawn
    obtain ⟨fault, w₁, hRun, hStill⟩ := hRefused hDrawn
    refine ⟨fault, w₁, ?_, hCalmGone (.of_still hStill), fun key entry hEntry => .inl ?_⟩
    · rw [hRender]
      exact run_bind_of_error (hOrigin.trans hRun) _
    · exact (unfed_of_evicted h.tidied hStill.vault).entries key entry hEntry

end Requests

end PageBlocks.Transparency
