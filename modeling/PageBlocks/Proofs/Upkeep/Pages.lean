import PageBlocks.Proofs.Upkeep.Drafts
import PageBlocks.Proofs.Upkeep.Directives

/-!
# What preparing pages leaves as it is

While pages are prepared, the files, the caches and the settings of a site stay as they are, and
every page that was made keeps its identity and its context (`Along`). The pages follow terms: they
have the directives and the cache of the site, variables that pass a check, and no cacheable blocks
(`Tended`). How a page is cached is followed up to the point where a page is marked as emitting
deferred fragments: from then on a page may also be dynamic.

The steps here keep both up, from wherever the run started (`Kept`). Preparing other pages is a
parameter, as it is for the site.
-/

set_option autoImplicit false

namespace PageBlocks.Upkeep

open PageBlocks.Cache PageBlocks.Running PageBlocks.Site

/-! ## Invariants -/

/-- What the pages of a site have in common, and what their bodies may do. -/
structure Terms where
  directives : Table String Directive
  cache : Option Ref
  /-- The values that bodies compute with. -/
  fits : Value → Bool
  /-- The cache modes that bodies may ask for. -/
  modes : CacheMode → Bool
  /-- Whether bodies may emit what a page keeps track of. -/
  tracks : Bool

/-- A page with the directives and the cache of a site. -/
structure PageFits (t : Terms) (page : Page) : Prop where
  directives : page.context.directives = t.directives
  cache : page.context.cache = t.cache
  vars : BindingsFit t.fits page.vars

/-- Whether a page is marked as emitting deferred fragments. -/
def Marked (w : World) : Prop :=
  ∃ (p : Nat) (page : Page), w.pages[p]? = some page ∧ page.deferred = true

/-- The pages of a site follow terms. -/
structure Tended (t : Terms) (w : World) : Prop where
  pages : ∀ (p : Nat) (page : Page), w.pages[p]? = some page → PageFits t page
  outlines : ∀ (n : Nat) (o : Outline), w.outlines[n]? = some o → Uncached o
  marks : Marked w → t.tracks = true
  modes : Marked w ∨ ∀ (p : Nat) (page : Page), w.pages[p]? = some page →
    t.modes page.mode = true

/-- A page later on: it has kept its identity and its context, and its mark if it had one. -/
structure Later (page page' : Page) : Prop where
  id : page'.id = page.id
  context : page'.context = page.context
  deferred : page.deferred = true → page'.deferred = true

/-- The world after a part of a run that left the files, the caches and the settings alone. -/
structure Along (w₀ w : World) : Prop where
  files : w.files = w₀.files
  vault : w.vault = w₀.vault
  settings : w.settings = w₀.settings
  globals : w.globals = w₀.globals
  pages : ∀ (p : Nat) (page : Page), w₀.pages[p]? = some page →
    ∃ page', w.pages[p]? = some page' ∧ Later page page'

/-- The pages follow terms after a part of a run that left the rest of the site alone. -/
structure Kept (t : Terms) (w₀ w : World) : Prop where
  tended : Tended t w
  along : Along w₀ w

theorem Later.refl (page : Page) : Later page page := ⟨rfl, rfl, fun hMark => hMark⟩

theorem Later.trans {a b c : Page} (h : Later a b) (h' : Later b c) : Later a c :=
  ⟨h'.id.trans h.id, h'.context.trans h.context, fun hMark => h'.deferred (h.deferred hMark)⟩

namespace Along

variable {w₀ w w' : World}

theorem refl (w : World) : Along w w :=
  ⟨rfl, rfl, rfl, rfl, fun _ page h => ⟨page, h, Later.refl page⟩⟩

/-- Every page is still there if the pages changed by a function that keeps what pages keep. -/
theorem pages_of (h : Along w₀ w)
    (hPages : ∀ (p : Nat) (page : Page), w.pages[p]? = some page →
      ∃ page', w'.pages[p]? = some page' ∧ Later page page') :
    ∀ (p : Nat) (page : Page), w₀.pages[p]? = some page →
      ∃ page', w'.pages[p]? = some page' ∧ Later page page' := by
  intro p page hPage
  obtain ⟨page₁, hPage₁, hLater₁⟩ := h.pages p page hPage
  obtain ⟨page₂, hPage₂, hLater₂⟩ := hPages p page₁ hPage₁
  exact ⟨page₂, hPage₂, hLater₁.trans hLater₂⟩

/-- A page that was marked still is. -/
theorem marked (h : Along w₀ w) (hMarked : Marked w₀) : Marked w := by
  obtain ⟨p, page, hPage, hDeferred⟩ := hMarked
  obtain ⟨page', hPage', hLater⟩ := h.pages p page hPage
  exact ⟨p, page', hPage', hLater.deferred hDeferred⟩

end Along

/-- Whether bodies may call a directive with whatever they compute with. Directives that use the
cache or pass requests on are out. -/
def Terms.allows (t : Terms) : Directive → Bool
  | .openBlock | .openBefore | .openBehind | .closeBlock | .extendPage | .blockOutput
  | .parentContent | .setVariable | .markupBlock _ | .transformText _ | .lightBlock _ | .lightText _
  | .wrap | .writeText => true
  | .includePage | .inserter | .deferFragment => t.tracks
  | .setOption => [CacheMode.static, .dynamic, .disabled].all t.modes
  | _ => false

/-- The terms are such that what bodies do under them stays within them. -/
structure Terms.Sound (t : Terms) : Prop where
  closed : Closed t.fits
  text : ∀ s, t.fits (.text s) = true
  inserter : ∀ p template, t.fits (.inserter p template) = t.tracks
  static : t.modes .static = true
  directive : ∀ p name directive, t.fits (.directive p name) = true →
    t.directives.get? name = some directive → t.allows directive = true

section Pages

variable {t : Terms} {w₀ w : World} {p : Nat}

/-! ## Reading pages -/

theorem upholds_page (p : Nat) : Upholds (Kept t w₀) (page p) (PageFits t) :=
  upholds_page_of fun _ page hKept hPage => hKept.tended.pages p page hPage

theorem upholds_outlineOf (p : Nat) : Upholds (Kept t w₀) (outlineOf p) Uncached := by
  unfold outlineOf
  refine (upholds_page p).bind fun page _ => Upholds.bind_get fun w hKept => ends_pure ⟨?_, hKept⟩
  cases hOutline : w.outlines[page.outline]? with
  | some o => exact hKept.tended.outlines _ o hOutline
  | none => exact uncached_empty

/-- The output of a block does not go by way of the cache. -/
theorem upholds_renderBlock (p i : Nat) :
    Upholds (Kept t w₀) (renderBlock p i) fun _ => True := by
  unfold renderBlock
  refine (upholds_page p).bind fun page _ => (upholds_outlineOf p).bind fun o hUncached => ?_
  obtain ⟨result, hRun⟩ := exists_run_render hUncached (memoOf page) i
  unfold onVault
  refine Upholds.bind_get fun w hKept => ?_
  rw [hRun]
  refine ends_set_bind ?_
  cases result with
  | ok text => exact ends_of_run (run_check rfl _) ⟨trivial, hKept⟩
  | error fault => exact ends_of_run_error (run_check_error rfl _) hKept

/-! ## Changing pages -/

theorem exists_later_of_modify {f : Page → Page} (hLater : ∀ page, Later page (f page)) (p q : Nat)
    {page : Page} (h : w.pages[q]? = some page) :
    ∃ page', (w.pages.modify p f)[q]? = some page' ∧ Later page page' := by
  rw [Array.getElem?_modify, h]
  split
  · exact ⟨f page, rfl, hLater page⟩
  · exact ⟨page, rfl, Later.refl page⟩

/-- What is marked stays so. -/
theorem Marked.modify (h : Marked w) {f : Page → Page} (hLater : ∀ page, Later page (f page))
    (p : Nat) (outlines : Array Outline) :
    Marked { w with pages := w.pages.modify p f, outlines } := by
  obtain ⟨q, page, hPage, hDeferred⟩ := h
  obtain ⟨page', hPage', hIs⟩ := exists_later_of_modify hLater p q hPage
  exact ⟨q, page', hPage', hIs.deferred hDeferred⟩

/-- A page was replaced by a later one that is as the terms say. If it got a mark, bodies may do
that; if it got another mode, bodies may ask for it, or a page is marked. -/
theorem Kept.modify (h : Kept t w₀ w) {f : Page → Page} {outlines : Array Outline}
    (hFits : ∀ page, PageFits t page → PageFits t (f page)) (hLater : ∀ page, Later page (f page))
    (hMark : ∀ page, (f page).deferred = true → page.deferred = true ∨ t.tracks = true)
    (hMode : Marked { w with pages := w.pages.modify p f, outlines }
      ∨ ∀ page, t.modes page.mode = true → t.modes (f page).mode = true)
    (hOutlines : ∀ (n : Nat) (o : Outline), outlines[n]? = some o → Uncached o) :
    Kept t w₀ { w with pages := w.pages.modify p f, outlines } := by
  have hOld : ∀ (q : Nat) (page : Page), (w.pages.modify p f)[q]? = some page →
      ∃ old, w.pages[q]? = some old ∧ (page = f old ∨ page = old) := by
    intro q page hPage
    rw [Array.getElem?_modify] at hPage
    split at hPage
    · obtain ⟨old, hOld, rfl⟩ := Option.map_eq_some_iff.mp hPage
      exact ⟨old, hOld, .inl rfl⟩
    · exact ⟨page, hPage, .inr rfl⟩
  refine ⟨⟨?_, hOutlines, ?_, ?_⟩, h.along.files, h.along.vault, h.along.settings, h.along.globals,
    h.along.pages_of fun q page => exists_later_of_modify hLater p q⟩
  · intro q page hPage
    obtain ⟨old, hFound, rfl | rfl⟩ := hOld q page hPage
    · exact hFits old (h.tended.pages q old hFound)
    · exact h.tended.pages q page hFound
  · rintro ⟨q, page, hPage, hDeferred⟩
    obtain ⟨old, hFound, rfl | rfl⟩ := hOld q page hPage
    · exact (hMark old hDeferred).elim (fun hWas => h.tended.marks ⟨q, old, hFound, hWas⟩) id
    · exact h.tended.marks ⟨q, page, hFound, hDeferred⟩
  · rcases h.tended.modes with hMarked | hModes
    · exact .inl (hMarked.modify hLater p outlines)
    · refine hMode.imp_right fun hStay q page hPage => ?_
      obtain ⟨old, hFound, rfl | rfl⟩ := hOld q page hPage
      · exact hStay old (hModes q old hFound)
      · exact hModes q page hFound

/-- A step that replaces a page by a later one under the same terms keeps up what is kept. -/
theorem upholds_updatePage {f : Page → Page}
    (hFits : ∀ page, PageFits t page → PageFits t (f page)) (hLater : ∀ page, Later page (f page))
    (hMark : ∀ page, (f page).deferred = page.deferred)
    (hMode : ∀ page, t.modes page.mode = true → t.modes (f page).mode = true) :
    Upholds (Kept t w₀) (updatePage p f) fun _ => True :=
  upholds_updatePage_of fun _ hKept => hKept.modify hFits hLater
    (fun page hNew => .inl ((hMark page).symm.trans hNew)) (.inr hMode) hKept.tended.outlines

/-- So does a step of a draft that declares no cacheable block. -/
theorem upholds_onDraft {α : Type} {x : DraftM α} (hKeeps : Draft.Keeps Uncached x) :
    Upholds (Kept t w₀) (onDraft p x) fun _ => True := by
  unfold onDraft
  refine (upholds_page p).bind fun page _ => (upholds_outlineOf p).bind fun o hUncached => ?_
  rcases hRun : x.run (draftOf page o) with ⟨result, d⟩
  have hAfter : Uncached d.outline := by
    have hEnds := hKeeps (draftOf page o) hUncached
    cases result with
    | ok a => exact hEnds.of_run hRun
    | error fault => exact hEnds.of_run_error hRun
  dsimp only
  refine Upholds.seq (fun w hKept => ends_modify ⟨trivial, ?_⟩)
    fun _ => upholds_check fun _ _ => trivial
  refine hKept.modify (fun other h => ⟨h.directives, h.cache, h.vars⟩)
    (fun _ => ⟨rfl, rfl, fun hMark => hMark⟩) (fun _ hMark => .inl hMark)
    (.inr fun _ hMode => hMode)
    fun n other hOther => ?_
  rw [Array.getElem?_modify] at hOther
  split at hOther
  · obtain ⟨old, -, rfl⟩ := Option.map_eq_some_iff.mp hOther
    exact hAfter
  · exact hKept.tended.outlines n other hOther

theorem marked_of_modify {f : Page → Page} {page : Page} (hPage : w.pages[p]? = some page)
    (hMark : (f page).deferred = true) (outlines : Array Outline) :
    Marked { w with pages := w.pages.modify p f, outlines } := by
  refine ⟨p, f page, ?_, hMark⟩
  show (w.pages.modify p f)[p]? = some (f page)
  rw [Array.getElem?_modify, if_pos rfl, hPage]
  rfl

theorem modify_of_none {f : Page → Page} (h : w.pages[p]? = none) :
    w.pages.modify p f = w.pages := by
  refine Array.ext_getElem? fun q => ?_
  rw [Array.getElem?_modify]
  split
  · rename_i hSame
    rw [← hSame, h]
    rfl
  · rfl

/-- A page that emits what it keeps track of is marked, and its mode does not matter from then
on. -/
theorem upholds_track (hTracks : t.tracks = true) (text : String) :
    Upholds (Kept t w₀) (track p text) fun _ => True := by
  refine upholds_track_of (upholds_updatePage_of fun w hKept => ?_) text
  cases hPage : w.pages[p]? with
  | none =>
    rw [modify_of_none hPage]
    exact hKept
  | some page =>
    exact hKept.modify (fun other h => ⟨h.directives, h.cache, h.vars⟩)
      (fun _ => ⟨rfl, rfl, fun _ => rfl⟩) (fun _ _ => .inr hTracks)
      (.inl (marked_of_modify hPage rfl _)) hKept.tended.outlines

/-! ## New pages -/

/-- A new page is static and not marked. -/
theorem Kept.push (h : Kept t w₀ w) {page : Page} (hFits : PageFits t page)
    (hMode : t.modes page.mode = true) (hMark : page.deferred = false) (owner : String) :
    Kept t w₀ { w with
      pages := w.pages.push page
      outlines := w.outlines.push (Outline.start owner) } := by
  have hNew : ∀ (q : Nat) (other : Page), w.pages[q]? = some other →
      ∃ other', (w.pages.push page)[q]? = some other' ∧ Later other other' := by
    intro q other hOther
    have hBound := (Array.getElem?_eq_some_iff.mp hOther).1
    refine ⟨other, ?_, Later.refl other⟩
    rw [Array.getElem?_push, if_neg (Nat.ne_of_lt hBound)]
    exact hOther
  have hOld : ∀ (q : Nat) (other : Page), (w.pages.push page)[q]? = some other →
      other = page ∨ w.pages[q]? = some other := by
    intro q other hOther
    rw [Array.getElem?_push] at hOther
    split at hOther
    · exact .inl (Option.some.inj hOther).symm
    · exact .inr hOther
  refine ⟨⟨?_, ?_, ?_, ?_⟩, h.along.files, h.along.vault, h.along.settings, h.along.globals,
    h.along.pages_of hNew⟩
  · intro q other hOther
    rcases hOld q other hOther with rfl | hFound
    · exact hFits
    · exact h.tended.pages q other hFound
  · intro n o hOutline
    rw [Array.getElem?_push] at hOutline
    split at hOutline
    · cases hOutline
      exact uncached_start owner
    · exact h.tended.outlines n o hOutline
  · rintro ⟨q, other, hOther, hDeferred⟩
    rcases hOld q other hOther with rfl | hFound
    · rw [hMark] at hDeferred
      cases hDeferred
    · exact h.tended.marks ⟨q, other, hFound, hDeferred⟩
  · rcases h.tended.modes with ⟨q, other, hOther, hDeferred⟩ | hModes
    · obtain ⟨other', hOther', hIs⟩ := hNew q other hOther
      exact .inl ⟨q, other', hOther', hIs.deferred hDeferred⟩
    · refine .inr fun q other hOther => ?_
      rcases hOld q other hOther with rfl | hFound
      · exact hMode
      · exact hModes q other hFound

theorem upholds_newPage (hSound : t.Sound) {place : Place} {vars : Bindings} {context : Context}
    {chain : List Place} (hVars : BindingsFit t.fits vars)
    (hDirectives : context.directives = t.directives) (hCache : context.cache = t.cache) :
    Upholds (Kept t w₀) (newPage place vars context chain) fun _ => True := by
  unfold newPage
  refine Upholds.bind_check fun id _ => Upholds.bind_get fun w hKept => ?_
  refine ends_set_bind (ends_pure ⟨trivial, ?_⟩)
  exact hKept.push ⟨hDirectives, hCache, hVars⟩ hSound.static rfl id

theorem upholds_relatedPage (hSound : t.Sound) {name vars : Value} (hVars : t.fits vars = true) :
    Upholds (Kept t w₀) (relatedPage p name vars) fun _ => True := by
  unfold relatedPage
  refine (upholds_page p).bind fun page hPage => ?_
  refine (looks_locate _ _ _).upholds.seq fun place => ?_
  refine Upholds.bind_check fun more hMore => ?_
  have hMerged := hPage.vars.merge (hSound.closed.ofMap hVars hMore)
  exact upholds_newPage hSound hMerged hPage.directives hPage.cache

/-! ## Including and extending -/

/-- Preparing a page keeps up what is kept, from wherever a run over some files started. -/
def Prepares (t : Terms) (files : FileTree Body.Source) (prepare : Nat → SiteM Unit) : Prop :=
  ∀ w₀ : World, w₀.files = files → ∀ p, Upholds (Kept t w₀) (prepare p) fun _ => True

/-- What is kept from here on is kept from the start on. -/
theorem Kept.follow {α : Type} {x : SiteM α} {post : α → Prop} (h : Kept t w₀ w)
    (hNext : Upholds (Kept t w) x post) :
    Ends x w (fun a w' => post a ∧ Kept t w₀ w') (Kept t w₀) := by
  have hTrans : ∀ w', Kept t w w' → Kept t w₀ w' := fun w' h' =>
    ⟨h'.tended, h'.along.files.trans h.along.files, h'.along.vault.trans h.along.vault,
      h'.along.settings.trans h.along.settings, h'.along.globals.trans h.along.globals,
      h.along.pages_of h'.along.pages⟩
  exact Ends.mono (hNext w ⟨h.tended, Along.refl w⟩) (fun _ w' hEnd => ⟨hEnd.1, hTrans w' hEnd.2⟩)
    hTrans

variable {prepare : Nat → SiteM Unit} {files : FileTree Body.Source}

theorem upholds_renderPage (hPrepare : Prepares t files prepare) (hFiles : w₀.files = files)
    (p : Nat) : Upholds (Kept t w₀) (renderPage prepare p) fun _ => True :=
  (hPrepare w₀ hFiles p).bind fun _ _ => upholds_renderBlock p _

theorem upholds_includePage (hSound : t.Sound) (hPrepare : Prepares t files prepare)
    (hFiles : w₀.files = files) (hTracks : t.tracks = true) {name vars : Value}
    (hVars : t.fits vars = true) :
    Upholds (Kept t w₀) (includePage prepare p name vars) fun _ => True := by
  unfold includePage
  refine (upholds_relatedPage hSound hVars).bind fun other _ => ?_
  refine (upholds_renderPage hPrepare hFiles other).bind fun text _ => ?_
  exact upholds_track hTracks text

/-- A page takes over the mode and the mark of a page that was prepared for it. -/
theorem upholds_adopt (base : Nat) (name : Value) :
    Upholds (Kept t w₀) (adopt p base name) fun _ => True := by
  unfold adopt
  refine Upholds.bind_page fun w prepared hKept hBase => ends_modify_bind ?_
  refine upholds_onDraft (lasting_uncached.markExtended _) _ ?_
  have hVars := (hKept.tended.pages base prepared hBase).vars
  refine hKept.modify (fun page h => ⟨h.directives, h.cache, ?_⟩) (fun page => ⟨rfl, rfl, ?_⟩)
    (fun page hMark => ?_) ?_ hKept.tended.outlines
  · exact hVars.merge fun entry hMem => h.vars entry (List.mem_filter.mp hMem).1
  · intro hMark
    simp [hMark]
  · -- the mark is the page's own, or that of the other page
    rcases Bool.or_eq_true_iff.mp hMark with hOwn | hTaken
    · exact .inl hOwn
    · exact .inr (hKept.tended.marks ⟨base, prepared, hBase, hTaken⟩)
  · rcases hKept.tended.modes with hMarked | hModes
    · refine .inl (hMarked.modify (fun page => ?_) p _)
      exact ⟨rfl, rfl, fun hMark => by simp [hMark]⟩
    · exact .inr fun _ _ => hModes base prepared hBase

/-- Extending a page keeps up what is kept: the base starts in a mode that its page has reached. -/
theorem upholds_extend (hSound : t.Sound) (hPrepare : Prepares t files prepare)
    (hFiles : w₀.files = files) (name : Value) :
    Upholds (Kept t w₀) (extend prepare p name) fun _ => True := by
  unfold extend
  refine Upholds.bind_page fun w page hKept hPage => hKept.follow ?_
  obtain ⟨hDirectives, hCache, hVars⟩ := hKept.tended.pages p page hPage
  refine (looks_locate _ _ _).upholds.seq fun place => ?_
  dsimp only
  split
  · exact Upholds.bind_check fun fault _ => upholds_throw fault
  · refine (upholds_newPage hSound hVars hDirectives hCache).bind fun base _ => ?_
    refine Upholds.seq (fun w₁ hKept₁ => ends_modify ⟨trivial, ?_⟩) ?_
    · refine hKept₁.modify (fun other h => ⟨h.directives, h.cache, h.vars⟩)
        (fun _ => ⟨rfl, rfl, fun hMark => hMark⟩) (fun _ hMark => .inl hMark) ?_
        hKept₁.tended.outlines
      rcases hKept.tended.modes with hMarked | hModes
      · refine .inl ((hKept₁.along.marked hMarked).modify (fun _ => ?_) base _)
        exact ⟨rfl, rfl, fun hMark => hMark⟩
      · exact .inr fun _ _ => hModes p page hPage
    · intro _
      refine (hPrepare w (hKept.along.files.trans hFiles) base).seq fun _ => ?_
      exact upholds_adopt base name

end Pages

end PageBlocks.Upkeep
