import PageBlocks.Proofs.Deferral.Fragments
import PageBlocks.Proofs.Drafts
import PageBlocks.Proofs.Guards
import PageBlocks.Proofs.Progress.Pages

/-!
# What runs may do to a site

Limits say which pages a run may work on, which of them it may also turn into something else, which
ways it may use the caches, and how the site may go from one state to another one (`Limits`). A way
that keeps to the limits one step at a time keeps to them as a whole. Here that is shown of the
steps that pages are made of: reading and changing pages, making new ones, including and extending.

Preparing other pages is a parameter, as it is for the site. It has to keep to the limits for pages
that may be anything (`Limits.Prepares`).
-/

set_option autoImplicit false

namespace PageBlocks.Confinement

open PageBlocks.Cache PageBlocks.Deferral PageBlocks.Running PageBlocks.Site PageBlocks.Upkeep
open PageBlocks.Outline (lasting_isLabelled)
open PageBlocks.Progress (SamePage)

/-! ## What pages take from others -/

section Fragments

variable (prepare : Nat → SiteM Unit) (p : Nat)

/-- The output of another page, before the page that includes it keeps track of it. -/
def fragment (name vars : Value) : SiteM String := do
  renderPage prepare (← relatedPage p name vars)

/-- The same by way of the cache. -/
def rememberedFragment (name vars lifetime : Value) : SiteM String := do
  let cache ← requireCache (← page p)
  let other ← relatedPage p name vars
  let id := (← page other).id
  Site.remembered cache id lifetime (renderPage prepare other)

/-- The page that a page extends, made and prepared. -/
def preparedBase (name : Value) : SiteM Nat := do
  let page ← page p
  let chain := page.chain ++ [page.place]
  let place ← locateFrom page name
  if chain.contains place then
    let path := fun place => (Path.absolute place).print
    throw (← check (Fault.ofCycle? ((chain ++ [place]).map path)))
  else
    let base ← newPage place page.vars page.context chain
    updatePage base fun other => { other with mode := page.mode }
    prepare base
    return base

theorem includePage_eq (name vars : Value) :
    includePage prepare p name vars = fragment prepare p name vars >>= track p := by
  unfold includePage fragment
  rw [bind_assoc]

theorem cachedInclude_eq (name vars lifetime : Value) :
    cachedInclude prepare p name vars lifetime
      = rememberedFragment prepare p name vars lifetime >>= track p := by
  unfold cachedInclude rememberedFragment
  simp only [bind_assoc]

theorem extend_eq (name : Value) :
    extend prepare p name = preparedBase prepare p name >>= fun base => adopt p base name := by
  unfold extend preparedBase
  simp only [bind_assoc]
  refine congrArg _ (funext fun page => congrArg _ (funext fun place => ?_))
  split
  · -- the throw ends either of the two
    simp only [bind_assoc]
    rfl
  · simp only [bind_assoc, pure_bind]

end Fragments

/-! ## Limits -/

/-- A page that was worked on and is cached as before, with the outline that it had. -/
structure Worked (page page' : Page) : Prop extends SamePage page page' where
  outline : page'.outline = page.outline
  mode : page'.mode = page.mode
  deferred : page'.deferred = page.deferred

/-- Whether a request is one for the output of a page. -/
def asksForPage : Request → Bool
  | .render .. => true
  | _ => false

/-- What computations may do to a site. -/
structure Limits where
  /-- The sites that this is about. -/
  ready : World → Prop
  /-- The pages that may be worked on. -/
  pages : World → Nat → Prop
  /-- The pages that may be anything. -/
  free : World → Nat → Prop
  /-- The contexts of pages. -/
  context : Context → Prop
  /-- How the caches may change. -/
  through : Vault → Vault → Prop
  /-- How the site may change. -/
  goes : World → World → Prop
  refl : ∀ w, goes w w
  trans : ∀ {w w' w'' : World}, goes w w' → goes w' w'' → goes w w''
  ready_of_goes : ∀ {w w' : World}, ready w → goes w w' → ready w'
  pages_of_goes : ∀ {w w' : World} {p : Nat}, ready w → goes w w' → pages w p → pages w' p
  free_of_goes : ∀ {w w' : World} {p : Nat}, ready w → goes w w' → free w p → free w' p
  pages_of_free : ∀ {w : World} {p : Nat}, free w p → pages w p
  settings : ∀ {w : World}, ready w → context w.settings
  contexts : ∀ {w : World} {p : Nat} {page : Page}, ready w →
    w.pages[p]? = some page → context page.context
  located : ∀ {settings : Context} (locator : Locator), context settings →
    context { settings with locator }
  through_refl : ∀ v : Vault, through v v
  through_trans : ∀ {v v' v'' : Vault}, through v v' → through v' v'' → through v v''
  lookup : ∀ {settings : Context} {cache : Ref}, context settings →
    settings.cache = some cache → ∀ (key : String) (v : Vault),
      through v ((cache.lookup key).run v).2
  put : ∀ {settings : Context} {cache : Ref}, context settings →
    settings.cache = some cache → ∀ (key content : String) (lifetime : Value) (v : Vault),
      through v ((cache.put key content (some lifetime)).run v).2
  /-- The pages stay as they are. -/
  aside : ∀ {w w' : World}, ready w → w'.pages = w.pages → w'.outlines = w.outlines →
    w'.settings = w.settings → through w.vault w'.vault → goes w w'
  /-- A page is worked on. -/
  work : ∀ {w : World} {p : Nat} {f : Page → Page}, ready w → pages w p →
    (∀ page, Worked page (f page)) → goes w { w with pages := w.pages.modify p f }
  /-- A page is turned into another one, which may have the outline of a third one. -/
  turn : ∀ {w : World} {p : Nat} {f : Page → Page}, ready w → free w p →
    (∀ page, SamePage page (f page)) → ((∀ page, (f page).outline = page.outline)
      ∨ ∃ base prepared, free w base ∧ w.pages[base]? = some prepared
        ∧ ∀ page, (f page).outline = prepared.outline) →
      goes w { w with pages := w.pages.modify p f }
  /-- The draft of a page moves on. -/
  draft : ∀ {w : World} {p : Nat} {page : Page}, ready w → pages w p → w.pages[p]? = some page →
    ∀ {d : Draft}, (((w.outlines[page.outline]?).getD {}).IsLabelled → d.outline.IsLabelled) →
    goes w { w with
      pages := w.pages.modify p fun page => { page with stack := d.stack, captures := d.captures }
      outlines := w.outlines.modify page.outline fun _ => d.outline }
  /-- A page is made. -/
  push : ∀ {w : World} {page : Page}, ready w → context page.context →
    page.outline = w.outlines.size → ∀ owner,
      goes w { w with
          pages := w.pages.push page
          outlines := w.outlines.push (Outline.start owner) }
        ∧ free { w with
          pages := w.pages.push page
          outlines := w.outlines.push (Outline.start owner) } w.pages.size
  /-- A body passes a request on. -/
  passOn : ∀ {w : World} {settings : Context} {name : String} {r : Request}, ready w →
    context settings → settings.directives.get? name = some (.request r) → asksForPage r = false →
      ∀ prepare, goes w ((answer prepare r).run w).2

/-- Preparing a page that may be anything keeps to limits. -/
def Limits.Prepares (L : Limits) (prepare : Nat → SiteM Unit) : Prop :=
  ∀ {w : World} {p : Nat}, L.ready w → L.free w p → L.goes w ((prepare p).run w).2

section Steps

variable {L : Limits} {w₀ w : World} {p : Nat} {α : Type}

/-- What keeps to limits from here on keeps to them from the start on. -/
theorem Limits.follow (L : Limits) {x : SiteM α} {post : α → Prop} (hGoes : L.goes w₀ w)
    (h : Upholds (L.goes w) x post) :
    Ends x w (fun a w' => post a ∧ L.goes w₀ w') (L.goes w₀) :=
  Ends.mono (h w (L.refl w)) (fun _ _ hEnd => ⟨hEnd.1, L.trans hGoes hEnd.2⟩)
    fun _ hEnd => L.trans hGoes hEnd

theorem ends_of_goes {x : SiteM α} (h : L.goes w₀ (x.run w).2) :
    Ends x w (fun _ w' => True ∧ L.goes w₀ w') (L.goes w₀) := by
  rcases hRun : x.run w with ⟨fault | a, w'⟩
  · rw [hRun] at h
    exact ends_of_run_error hRun h
  · rw [hRun] at h
    exact ends_of_run hRun ⟨trivial, h⟩

/-! ## Reading -/

/-- A page whose outline is not there reads as one without blocks. -/
theorem run_outlineOf_getD {page : Page} (hPage : w.pages[p]? = some page) :
    (outlineOf p).run w = (.ok ((w.outlines[page.outline]?).getD {}), w) := by
  unfold outlineOf
  rw [run_bind_of_ok (run_page hPage), run_bind_of_ok (run_get w)]
  rfl

theorem upholds_page (hReady : L.ready w₀) (p : Nat) :
    Upholds (L.goes w₀) (page p) fun page => L.context page.context :=
  upholds_page_of fun _ _ hGoes hPage => L.contexts (L.ready_of_goes hReady hGoes) hPage

theorem upholds_of_staysAside (hReady : L.ready w₀) {x : SiteM α} (h : StaysAside x) :
    Upholds (L.goes w₀) x fun _ => True := by
  intro w hGoes
  have hAside := h.run w
  refine ends_of_goes (L.trans hGoes ?_)
  refine L.aside (L.ready_of_goes hReady hGoes) hAside.pages hAside.outlines hAside.settings ?_
  rw [hAside.vault]
  exact L.through_refl _

/-! ## The caches -/

/-- A computation on the caches uses them as it may. -/
def Passes (L : Limits) (x : VaultM α) : Prop := ∀ v, L.through v (x.run v).2

theorem Passes.bind {β : Type} {x : VaultM α} {f : α → VaultM β} (h : Passes L x)
    (hNext : ∀ a, Passes L (f a)) : Passes L (x >>= f) := by
  intro v
  have hFirst := h v
  rw [run_bind]
  rcases hRun : x.run v with ⟨fault | a, v'⟩
  · rw [hRun] at hFirst
    exact hFirst
  · rw [hRun] at hFirst
    exact L.through_trans hFirst (hNext a v')

theorem passes_pure (a : α) : Passes L (pure a : VaultM α) := L.through_refl

theorem upholds_onVault (hReady : L.ready w₀) {x : VaultM α} (h : Passes L x) :
    Upholds (L.goes w₀) (onVault x) fun _ => True :=
  upholds_onVault_of fun w hGoes =>
    L.trans hGoes (L.aside (L.ready_of_goes hReady hGoes) rfl rfl rfl (h w.vault))

/-- The output of a block uses the caches as those of its children do. -/
theorem passes_compose {render : Nat → VaultM String} (o : Outline) (b : Block)
    (h : ∀ i, Passes L (render i)) : Passes L (Outline.compose render o b) := by
  unfold Outline.compose
  refine Passes.bind ?_ fun rendered => passes_pure _
  induction b.children with
  | nil => exact passes_pure []
  | cons j rest ihRest =>
    rw [List.filterMapM_cons]
    refine Passes.bind ?_ fun found => ?_
    · cases o.block? j with
      | none => exact passes_pure none
      | some child => exact (h j).bind fun text => passes_pure _
    · cases found with
      | none => exact ihRest
      | some entry => exact ihRest.bind fun rendered => passes_pure _

/-- Rendering a block uses the cache by way of cacheable blocks only. -/
theorem passes_renderFrom {memo : Option Memo} (o : Outline)
    (hMemo : ∀ m, memo = some m → ∃ settings, L.context settings ∧ settings.cache = some m.cache)
    (depth i : Nat) : Passes L (Outline.renderFrom depth memo o i) := by
  induction depth generalizing i with
  | zero => exact L.through_refl
  | succ depth ih =>
    unfold Outline.renderFrom
    cases o.block? i with
    | none => exact passes_pure ""
    | some b =>
      dsimp only
      split
      · rename_i m hKind
        obtain ⟨settings, hContext, hCache⟩ := hMemo m rfl
        unfold Outline.remembered
        refine Passes.bind (L.lookup hContext hCache b.id) fun found => ?_
        cases found with
        | some output => exact passes_pure output
        | none =>
          refine (passes_compose o b ih).bind fun output => ?_
          exact Passes.bind (L.put hContext hCache b.id output _) fun _ => passes_pure output
      · exact passes_compose o b ih

theorem upholds_renderBlock (hReady : L.ready w₀) (p i : Nat) :
    Upholds (L.goes w₀) (renderBlock p i) fun _ => True := by
  unfold renderBlock
  refine (upholds_page hReady p).bind fun page hContext => ?_
  refine (looks_outlineOf p).upholds.seq fun o => upholds_onVault hReady ?_
  refine passes_renderFrom o (fun m hMemo => ?_) _ i
  obtain ⟨cache, hCache, rfl⟩ := Option.map_eq_some_iff.mp hMemo
  exact ⟨page.context, hContext, hCache⟩

/-- By way of the cache or not: what is computed keeps to the limits. -/
theorem upholds_remembered (hReady : L.ready w₀) {settings : Context} {cache : Ref}
    (hContext : L.context settings) (hCache : settings.cache = some cache) (key : String)
    (lifetime : Value) {compute : SiteM String}
    (hCompute : Upholds (L.goes w₀) compute fun _ => True) :
    Upholds (L.goes w₀) (Site.remembered cache key lifetime compute) fun _ => True :=
  upholds_remembered_of (upholds_onVault hReady (L.lookup hContext hCache key)) hCompute
    fun text => upholds_onVault hReady (L.put hContext hCache key text lifetime)

/-! ## Changing pages -/

theorem upholds_work (hReady : L.ready w₀) (hPages : L.pages w₀ p) {f : Page → Page}
    (hWorked : ∀ page, Worked page (f page)) :
    Upholds (L.goes w₀) (updatePage p f) fun _ => True :=
  upholds_updatePage_of fun _ hGoes => L.trans hGoes
    (L.work (L.ready_of_goes hReady hGoes) (L.pages_of_goes hReady hGoes hPages) hWorked)

/-- A page that may be anything is cached in another way. -/
theorem upholds_turn (hReady : L.ready w₀) (hFree : L.free w₀ p) {f : Page → Page}
    (hSame : ∀ page, SamePage page (f page)) (hOutline : ∀ page, (f page).outline = page.outline) :
    Upholds (L.goes w₀) (updatePage p f) fun _ => True :=
  upholds_updatePage_of fun _ hGoes => L.trans hGoes (L.turn (L.ready_of_goes hReady hGoes)
    (L.free_of_goes hReady hGoes hFree) hSame (.inl hOutline))

theorem upholds_onDraft (hReady : L.ready w₀) (hPages : L.pages w₀ p) {x : DraftM α}
    (hKeeps : Draft.Keeps Outline.IsLabelled x) :
    Upholds (L.goes w₀) (onDraft p x) fun _ => True := by
  unfold onDraft
  refine Upholds.bind_page fun w page hGoes hPage => ?_
  refine ends_bind_of_run (run_outlineOf_getD hPage) (ends_modify_bind ?_)
  exact upholds_check (fun _ _ => trivial) _ (L.trans hGoes
    (L.draft (L.ready_of_goes hReady hGoes) (L.pages_of_goes hReady hGoes hPages) hPage
      fun hOutline => hKeeps.run (d := draftOf page _) hOutline))

theorem upholds_track (hReady : L.ready w₀) (hFree : L.free w₀ p) (text : String) :
    Upholds (L.goes w₀) (track p text) fun _ => True :=
  upholds_track_of (upholds_turn hReady hFree (fun _ => ⟨rfl, rfl, rfl, rfl⟩) fun _ => rfl) text

/-! ## New pages -/

/-- A page that was just made may be anything. -/
theorem ends_newPage (hReady : L.ready w₀) {settings : Context} (hContext : L.context settings)
    (place : Place) (vars : Bindings) (chain : List Place) (hGoes : L.goes w₀ w) :
    Ends (newPage place vars settings chain) w (fun b w' => L.free w' b ∧ L.goes w₀ w')
      (L.goes w₀) := by
  unfold newPage
  cases hId : Identity.page (Path.absolute place).print vars with
  | error fault => exact ends_bind_of_run_error (run_check_error rfl w) hGoes
  | ok id =>
    refine ends_bind_of_run (run_check rfl w) (ends_get_bind (ends_set_bind (ends_pure ?_)))
    let made : Page :=
      { place, vars, context := settings, id, chain, outline := w.outlines.size }
    have hMade := @L.push w made (L.ready_of_goes hReady hGoes) hContext rfl id
    exact ⟨hMade.2, L.trans hGoes hMade.1⟩

theorem ends_relatedPage (hReady : L.ready w₀) (p : Nat) (name vars : Value)
    (hGoes : L.goes w₀ w) :
    Ends (relatedPage p name vars) w (fun b w' => L.free w' b ∧ L.goes w₀ w') (L.goes w₀) := by
  unfold relatedPage
  refine Ends.bind (upholds_page hReady p w hGoes) fun page w₁ hPage => ?_
  refine Ends.bind ((looks_locate _ _ _).upholds w₁ hPage.2) fun place w₂ hPlace => ?_
  refine Ends.bind ((looks_check _).upholds w₂ hPlace.2) fun more w₃ hMore => ?_
  exact ends_newPage hReady hPage.1 place _ _ hMore.2

/-! ## Including and extending -/

variable {prepare : Nat → SiteM Unit}

theorem ends_renderPage (hPrepare : L.Prepares prepare) (hReady : L.ready w₀) (hGoes : L.goes w₀ w)
    (hFree : L.free w p) :
    Ends (renderPage prepare p) w (fun _ w' => True ∧ L.goes w₀ w') (L.goes w₀) := by
  have hHere := L.ready_of_goes hReady hGoes
  refine Ends.bind (ends_of_goes (L.trans hGoes (hPrepare hHere hFree))) fun _ w' hEnd => ?_
  exact upholds_renderBlock hReady p _ w' hEnd.2

theorem upholds_fragment (hPrepare : L.Prepares prepare) (hReady : L.ready w₀) (p : Nat)
    (name vars : Value) : Upholds (L.goes w₀) (fragment prepare p name vars) fun _ => True :=
  fun _ hGoes => Ends.bind (ends_relatedPage hReady p name vars hGoes) fun _ _ hOther =>
    ends_renderPage hPrepare hReady hOther.2 hOther.1

theorem upholds_includePage (hPrepare : L.Prepares prepare) (hReady : L.ready w₀)
    (hFree : L.free w₀ p) (name vars : Value) :
    Upholds (L.goes w₀) (includePage prepare p name vars) fun _ => True := by
  rw [includePage_eq]
  exact (upholds_fragment hPrepare hReady p name vars).seq fun text =>
    upholds_track hReady hFree text

theorem upholds_rememberedFragment (hPrepare : L.Prepares prepare) (hReady : L.ready w₀) (p : Nat)
    (name vars lifetime : Value) :
    Upholds (L.goes w₀) (rememberedFragment prepare p name vars lifetime) fun _ => True := by
  unfold rememberedFragment
  refine (upholds_page hReady p).bind fun page hContext => ?_
  refine (upholds_requireCache page).bind fun cache hCache w hGoes => ?_
  refine Ends.bind (ends_relatedPage hReady p name vars hGoes) fun other w₁ hOther => ?_
  -- the page that was just made may be anything from here on
  have hHere := L.ready_of_goes hReady hOther.2
  refine L.follow hOther.2 ((upholds_page hHere other).bind fun found _ => ?_)
  refine upholds_remembered hHere hContext hCache _ _ fun w₂ hGoes₂ => ?_
  exact ends_renderPage hPrepare hHere hGoes₂ (L.free_of_goes hHere hGoes₂ hOther.1)

theorem upholds_cachedInclude (hPrepare : L.Prepares prepare) (hReady : L.ready w₀)
    (hFree : L.free w₀ p) (name vars lifetime : Value) :
    Upholds (L.goes w₀) (cachedInclude prepare p name vars lifetime) fun _ => True := by
  rw [cachedInclude_eq]
  exact (upholds_rememberedFragment hPrepare hReady p name vars lifetime).seq fun text =>
    upholds_track hReady hFree text

/-- The page of a base may be anything once it is prepared. -/
theorem ends_preparedBase (hPrepare : L.Prepares prepare) (hReady : L.ready w₀) (p : Nat)
    (name : Value) (hGoes : L.goes w₀ w) :
    Ends (preparedBase prepare p name) w (fun base w' => L.free w' base ∧ L.goes w₀ w')
      (L.goes w₀) := by
  unfold preparedBase
  refine Ends.bind (upholds_page hReady p w hGoes) fun page w₁ hPage => ?_
  refine Ends.bind ((looks_locate _ _ _).upholds w₁ hPage.2) fun place w₂ hPlace => ?_
  dsimp only
  split
  · exact Ends.bind ((looks_check _).upholds w₂ hPlace.2) fun fault w₃ hEnd => ends_throw hEnd.2
  · refine Ends.bind (ends_newPage hReady hPage.1 place _ _ hPlace.2) fun base w₃ hBase => ?_
    have hHere := L.ready_of_goes hReady hBase.2
    have hMode : L.goes w₃ { w₃ with
        pages := w₃.pages.modify base fun other => { other with mode := page.mode } } :=
      L.turn hHere hBase.1 (fun _ => ⟨rfl, rfl, rfl, rfl⟩) (.inl fun _ => rfl)
    have hNext := L.ready_of_goes hHere hMode
    have hFree := L.free_of_goes hHere hMode hBase.1
    have hGone := L.trans hBase.2 hMode
    refine ends_modify_bind (Ends.bind (Ends.mono (ends_of_goes (hPrepare hNext hFree))
      (fun _ _ hEnd => hEnd.2) fun _ hEnd => L.trans hGone hEnd) fun _ w₄ hEnd => ends_pure ?_)
    exact ⟨L.free_of_goes hNext hEnd hFree, L.trans hGone hEnd⟩

/-- A page goes on with the outline of another one that may be anything as well. -/
theorem ends_adopt (hReady : L.ready w₀) {base : Nat} (name : Value) (hGoes : L.goes w₀ w)
    (hFree : L.free w p) (hBase : L.free w base) :
    Ends (adopt p base name) w (fun _ w' => True ∧ L.goes w₀ w') (L.goes w₀) := by
  have hHere := L.ready_of_goes hReady hGoes
  unfold adopt
  cases hFound : w.pages[base]? with
  | none => exact ends_bind_of_run_error (run_page_error hFound) hGoes
  | some prepared =>
    refine ends_bind_of_run (run_page hFound) (ends_modify_bind ?_)
    have hTurned := L.turn (p := p) (f := fun page =>
      { page with
        vars := Table.merge prepared.vars (page.vars.filter fun entry => entry.1 == entry.1)
        mode := prepared.mode
        deferred := page.deferred || prepared.deferred
        outline := prepared.outline
        stack := [Outline.root]
        captures := [Capture.empty]
        base := some name }) hHere hFree (fun _ => ⟨rfl, rfl, rfl, rfl⟩)
      (.inr ⟨base, prepared, hBase, hFound, fun _ => rfl⟩)
    have hNext := L.ready_of_goes hHere hTurned
    refine L.follow (L.trans hGoes hTurned) ?_
    exact upholds_onDraft hNext (L.pages_of_free (L.free_of_goes hHere hTurned hFree))
      (lasting_isLabelled.markExtended _)

theorem upholds_extend (hPrepare : L.Prepares prepare) (hReady : L.ready w₀)
    (hFree : L.free w₀ p) (name : Value) :
    Upholds (L.goes w₀) (extend prepare p name) fun _ => True := by
  intro w hGoes
  rw [extend_eq]
  refine Ends.bind (ends_preparedBase hPrepare hReady p name hGoes) fun base w₁ hBase => ?_
  exact ends_adopt hReady name hBase.2 (L.free_of_goes hReady hBase.2 hFree) hBase.1

end Steps

end PageBlocks.Confinement
