import PageBlocks.Proofs.Deferral.Evaluation
import PageBlocks.Proofs.Filling.Rendering
import PageBlocks.Proofs.Upkeep.Calls

/-!
# Pages whose places belong to their blocks

A body composes its page if it uses data without STX and the directives for blocks, other templates,
variables and options. What it computes with is then free of STX (`closed_isStainless`). The content
of a block is the exception, because it holds the tokens of the children: a body may have it
printed, which puts it into the text of the same block, and may use it for nothing else.

While pages are prepared, every page keeps its text where it belongs: each open block has a capture
with places for its own children at most, each content has places for the children of its block, and
no cached text has an STX (`Tight`). Two pages may share an outline, after one of them has extended
the other; a step on the draft of one leaves the draft of the other in order, because blocks keep
their identities and their children (`Tight.modify`). Outputs have no STX then, whether they are
rendered, included or taken from the cache.

Preparing other pages is a parameter, as it is for the site.
-/

set_option autoImplicit false

namespace PageBlocks

/-- Whether a directive is one for blocks, other templates, variables or options. -/
def Directive.composes : Directive → Bool
  | .openBlock | .openBefore | .openBehind | .closeBlock | .cacheableBlock | .markupBlock _
  | .extendPage | .includePage | .cachedInclude _ | .blockOutput | .setVariable | .setOption => true
  | _ => false

/-- Whether a name stands for no other directive. -/
def isComposingName (directives : Table String Directive) (name : String) : Bool :=
  match directives.get? name with
  | some directive => directive.composes
  | none => true

/-- Whether a value is data without an STX, or one of the directives that compose pages, or made of
such values. -/
def Value.isStainless (directives : Table String Directive) (v : Value) : Bool :=
  v.every fun
    | .text s | .object s => !s.toList.contains '\x02'
    | .directive _ name => isComposingName directives name
    | .inserter _ _ => false
    | _ => true

namespace Filling

open PageBlocks.Body PageBlocks.Deferral PageBlocks.Upkeep

/-- Whether an expression is a call for the content of the innermost open block. -/
def showsContent (directives : Table String Directive) : Expr → Bool
  | .call (.name s) [] [] =>
    match directives.get? s with
    | some .parentContent => true
    | _ => false
  | _ => false

/-- What bodies use that compose pages. -/
def rules (directives : Table String Directive) : Rules where
  fits := Value.isStainless directives
  free := isComposingName directives
  shown := showsContent directives

section Values

variable {directives : Table String Directive}

theorem isStainless_text {s : String} :
    (Value.text s).isStainless directives = true ↔ Clean s.toList := by
  simp [Value.isStainless, Value.every, Clean]

/-- What clean values are is stainless, whatever the directives are. -/
theorem isStainless_of_isClean {v : Value} (h : v.isClean = true) :
    v.isStainless directives = true := by
  rw [← every_isClean] at h
  refine every_mono (fun part hPart => ?_) v h
  cases part with
  | directive q name => cases hPart
  | inserter q name => cases hPart
  | _ => first | exact hPart | rfl

theorem clean_print_of_isStainless {v : Value} (h : v.isStainless directives = true) :
    Clean v.print.toList := by
  refine clean_print_of_every (fun name hName => ?_) (fun s hText => ?_) h
  · simpa [Clean] using hName
  · simpa [Clean] using hText

theorem closed_isStainless : Closed (Value.isStainless directives) where
  null := rfl
  missing := rfl
  int _ := rfl
  range _ _ _ := rfl
  builtIn _ := rfl
  counter round rounds := isStainless_of_isClean (isClean_counter round rounds)
  list _ := everyItem_iff
  tuple _ := everyItem_iff.mp
  map _ := everyEntry_iff
  character s h c hc := by
    rw [isStainless_text, String.toList_ofList]
    refine clean_cons.mpr ⟨?_, clean_nil⟩
    rintro rfl
    exact isStainless_text.mp h hc
  print v h := isStainless_text.mpr (clean_print_of_isStainless h)
  join parts h := by
    rw [isStainless_text, String.toList_join]
    exact clean_flatMap fun s hMem => isStainless_text.mp (h s hMem)

end Values

end Filling

end PageBlocks

namespace PageBlocks.Filling

open PageBlocks.Body PageBlocks.Cache PageBlocks.Deferral PageBlocks.Running PageBlocks.Site
  PageBlocks.Upkeep

/-! ## Invariants -/

/-- The terms of a site whose bodies compose their pages. -/
def terms (common : Context) : Terms where
  directives := common.directives
  cache := common.cache
  fits := Value.isStainless common.directives
  modes := fun _ => true
  tracks := true

/-- Whether the bodies of all templates compose their pages. -/
def BodiesCompose (directives : Table String Directive) (files : FileTree Source) : Prop :=
  ∀ entry ∈ files, ∀ items, bodyAt [entry] entry.1 = .ok items →
    Item.allKeep (rules directives) items = true

/-- Whether the open blocks and the captures of a page are in order. -/
def Drafted (outlines : Array Outline) (page : Page) : Prop :=
  ∃ o, outlines[page.outline]? = some o ∧ Stacked o page.stack
    ∧ Aligned o page.stack page.captures

/-- A site with the settings of before, in which all text is where it belongs. -/
structure Tight (common : Context) (w : World) : Prop where
  bodies : BodiesCompose common.directives w.files
  globals : BindingsFit (Value.isStainless common.directives) w.globals
  vault : Stainless common.cache w.vault
  pages : ∀ (p : Nat) (page : Page), w.pages[p]? = some page → PageFits (terms common) page
  drafts : ∀ (p : Nat) (page : Page), w.pages[p]? = some page → Drafted w.outlines page
  outlines : ∀ (n : Nat) (o : Outline), w.outlines[n]? = some o → Whole o
  settings : w.settings = common

/-- Outlines later on: each of them is still there, with its blocks. -/
def Grown (outlines outlines' : Array Outline) : Prop :=
  ∀ (n : Nat) (o : Outline), outlines[n]? = some o → ∃ o', outlines'[n]? = some o' ∧ Extends o o'

section Pages

variable {common : Context} {w : World} {p : Nat} {outlines outlines' : Array Outline}

theorem Grown.refl (outlines : Array Outline) : Grown outlines outlines :=
  fun _ o h => ⟨o, h, Extends.refl o⟩

theorem Drafted.grow {page : Page} (h : Drafted outlines page) (hGrown : Grown outlines outlines') :
    Drafted outlines' page := by
  obtain ⟨o, hOutline, hStacked, hAligned⟩ := h
  obtain ⟨o', hOutline', hExtends⟩ := hGrown _ o hOutline
  exact ⟨o', hOutline', hStacked.extend hExtends, hAligned.extend hExtends⟩

theorem Tight.placed (h : Tight common w) {page : Page} (hPage : w.pages[p]? = some page) :
    ∃ o, w.outlines[page.outline]? = some o ∧ Placed (draftOf page o) := by
  obtain ⟨o, hOutline, hStacked, hAligned⟩ := h.drafts p page hPage
  exact ⟨o, hOutline, h.outlines _ o hOutline, hStacked, hAligned⟩

/-! ## Reading pages -/

theorem upholds_page (p : Nat) : Upholds (Tight common) (page p) (PageFits (terms common)) :=
  upholds_page_of fun _ page hTight hPage => hTight.pages p page hPage

theorem upholds_outlineOf (p : Nat) : Upholds (Tight common) (outlineOf p) Whole := by
  unfold outlineOf
  refine Upholds.bind_page fun w page hTight hPage => ends_get_bind ?_
  obtain ⟨o, hOutline, hPlaced⟩ := hTight.placed hPage
  rw [hOutline]
  exact ends_pure ⟨hPlaced.outline, hTight⟩

/-! ## The cache -/

theorem upholds_onVault {α : Type} {x : VaultM α} {post : α → Prop}
    (h : ∀ v, Stainless common.cache v →
      Ends x v (fun a v' => post a ∧ Stainless common.cache v') (Stainless common.cache)) :
    Upholds (Tight common) (onVault x) post := by
  intro w hTight
  have hAfter : ∀ v, Stainless common.cache v → Tight common { w with vault := v } := by
    intro v hVault
    obtain ⟨hBodies, hGlobals, -, hPages, hDrafts, hOutlines, hSame⟩ := hTight
    exact ⟨hBodies, hGlobals, hVault, hPages, hDrafts, hOutlines, hSame⟩
  refine Ends.mono (ends_onVault (h w.vault hTight.vault)) ?_ ?_
  · rintro a w' ⟨v, ⟨hPost, hVault⟩, rfl⟩
    exact ⟨hPost, hAfter v hVault⟩
  · rintro w' ⟨v, hVault, rfl⟩
    exact hAfter v hVault

/-- The output of a block has no STX. -/
theorem upholds_renderBlock (p i : Nat) :
    Upholds (Tight common) (renderBlock p i) fun text => Clean text.toList := by
  unfold renderBlock
  refine (upholds_page p).bind fun page hPage => (upholds_outlineOf p).bind fun o hWhole => ?_
  have hMemo : ∀ m, memoOf page = some m → common.cache = some m.cache := by
    intro m hMemo
    obtain ⟨cache, hCache, rfl⟩ := Option.map_eq_some_iff.mp hMemo
    exact hPage.cache.symm.trans hCache
  exact upholds_onVault (fills_render hWhole hMemo i)

theorem upholds_lookup {cache : Ref} (hCache : common.cache = some cache) (key : String) :
    Upholds (Tight common) (onVault (cache.lookup key)) fun found =>
      ∀ text, found = some text → Clean text.toList :=
  upholds_onVault fun _ hVault => ends_lookup hCache key hVault

theorem upholds_put {cache : Ref} (hCache : common.cache = some cache) (key : String)
    (lifetime : Option Value) {text : String} (hText : Clean text.toList) :
    Upholds (Tight common) (onVault (cache.put key text lifetime)) fun _ => True :=
  upholds_onVault fun _ hVault => Ends.mono (ends_store hCache key lifetime hText hVault)
    (fun _ _ hStored => ⟨trivial, hStored⟩) fun _ => id

/-- What comes by way of the cache has no STX if that is so of what is computed. -/
theorem upholds_remembered {cache : Ref} {key : String} {lifetime : Value} {compute : SiteM String}
    (hCache : common.cache = some cache)
    (hCompute : Upholds (Tight common) compute fun text => Clean text.toList) :
    Upholds (Tight common) (Site.remembered cache key lifetime compute) fun text =>
      Clean text.toList := by
  unfold Site.remembered
  refine (upholds_lookup hCache key).bind fun found hFound => ?_
  cases found with
  | some text => exact upholds_pure (hFound text rfl)
  | none =>
    refine hCompute.bind fun text hText => ?_
    exact (upholds_put hCache key _ hText).seq fun _ => upholds_pure hText

/-! ## Changing pages -/

/-- A page was replaced, and blocks were added or filled. -/
theorem Tight.modify (h : Tight common w) {f : Page → Page} (hGrown : Grown w.outlines outlines)
    (hWhole : ∀ (n : Nat) (o : Outline), outlines[n]? = some o → Whole o)
    (hNew : ∀ page, w.pages[p]? = some page →
      PageFits (terms common) (f page) ∧ Drafted outlines (f page)) :
    Tight common { w with pages := w.pages.modify p f, outlines } := by
  have hCases : ∀ (q : Nat) (page : Page), (w.pages.modify p f)[q]? = some page →
      w.pages[q]? = some page ∨ ∃ old, w.pages[p]? = some old ∧ page = f old := by
    intro q page hPage
    rw [Array.getElem?_modify] at hPage
    split at hPage
    · rename_i hSame
      obtain ⟨old, hOld, rfl⟩ := Option.map_eq_some_iff.mp hPage
      exact .inr ⟨old, hSame ▸ hOld, rfl⟩
    · exact .inl hPage
  constructor
  case bodies => exact h.bodies
  case globals => exact h.globals
  case vault => exact h.vault
  case outlines => exact hWhole
  case settings => exact h.settings
  case pages =>
    intro q page hPage
    rcases hCases q page hPage with hOld | ⟨old, hOld, rfl⟩
    · exact h.pages q page hOld
    · exact (hNew old hOld).1
  case drafts =>
    intro q page hPage
    rcases hCases q page hPage with hOld | ⟨old, hOld, rfl⟩
    · exact (h.drafts q page hOld).grow hGrown
    · exact (hNew old hOld).2

/-- A step that changes neither the outline of a page nor its open blocks. -/
theorem upholds_updatePage {f : Page → Page}
    (hFits : ∀ page, PageFits (terms common) page → PageFits (terms common) (f page))
    (hDrafted : ∀ outlines page, Drafted outlines page → Drafted outlines (f page)) :
    Upholds (Tight common) (updatePage p f) fun _ => True := by
  intro w hTight
  refine ends_modify ⟨trivial, hTight.modify (Grown.refl _) hTight.outlines ?_⟩
  exact fun page hPage => ⟨hFits page (hTight.pages p page hPage),
    hDrafted _ page (hTight.drafts p page hPage)⟩

/-- A step of a draft that keeps every place with its block does so for all pages that share the
outline. -/
theorem ends_onDraft {α : Type} {x : DraftM α} {page : Page} {o : Outline} (h : Tight common w)
    (hPage : w.pages[p]? = some page) (hOutline : w.outlines[page.outline]? = some o)
    (hStep : Ends x (draftOf page o) (fun _ d => Onward (draftOf page o) d)
      fun d => Onward (draftOf page o) d) :
    Ends (onDraft p x) w (fun _ w' => True ∧ Tight common w') (Tight common) := by
  unfold onDraft
  refine ends_bind_of_run (run_page hPage) (ends_bind_of_run (run_outlineOf hPage hOutline) ?_)
  rcases hRun : x.run (draftOf page o) with ⟨result, d⟩
  have hOnward : Onward (draftOf page o) d := by
    cases result with
    | ok a => exact hStep.of_run hRun
    | error fault => exact hStep.of_run_error hRun
  have hHere : (w.outlines.modify page.outline fun _ => d.outline)[page.outline]?
      = some d.outline := by
    rw [Array.getElem?_modify, if_pos rfl, hOutline]
    rfl
  have hElse : ∀ n, n ≠ page.outline →
      (w.outlines.modify page.outline fun _ => d.outline)[n]? = w.outlines[n]? := by
    intro n hNe
    rw [Array.getElem?_modify, if_neg (Ne.symm hNe)]
  dsimp only
  refine ends_modify_bind (upholds_check (fun _ _ => trivial) _ (h.modify ?_ ?_ ?_))
  · intro n old hOld
    by_cases hSame : n = page.outline
    · rw [hSame, hOutline] at hOld
      cases hOld
      exact ⟨d.outline, hSame ▸ hHere, hOnward.outline⟩
    · exact ⟨old, (hElse n hSame).trans hOld, Extends.refl old⟩
  · intro n other hOther
    by_cases hSame : n = page.outline
    · rw [hSame, hHere] at hOther
      cases hOther
      exact hOnward.placed.outline
    · exact h.outlines n other ((hElse n hSame).symm.trans hOther)
  · intro found hFound
    rw [hPage] at hFound
    cases hFound
    obtain ⟨hDirectives, hCache, hVars⟩ := h.pages p page hPage
    exact ⟨⟨hDirectives, hCache, hVars⟩, d.outline, hHere, hOnward.placed.stack,
      hOnward.placed.captures⟩

theorem upholds_onDraft {α : Type} {x : DraftM α} (hKeeps : KeepsPlaced x) :
    Upholds (Tight common) (onDraft p x) fun _ => True := by
  intro w hTight
  cases hPage : w.pages[p]? with
  | some page =>
    obtain ⟨o, hOutline, hPlaced⟩ := hTight.placed hPage
    exact ends_onDraft hTight hPage hOutline (hKeeps _ hPlaced)
  | none =>
    unfold onDraft
    exact ends_bind_of_run_error (run_page_error hPage) hTight

/-- What a page is marked with does not move its text. -/
theorem upholds_track {text : String} (hText : Clean text.toList) :
    Upholds (Tight common) (track p text) fun shown => Clean shown.toList := by
  unfold track
  split
  · refine Upholds.seq ?_ fun _ => upholds_pure hText
    refine upholds_updatePage (fun page hFits => ?_) fun _ _ hDrafted => hDrafted
    exact ⟨hFits.directives, hFits.cache, hFits.vars⟩
  · exact upholds_pure hText

/-! ## New pages -/

/-- A new page has an outline of its own, which has the root and nothing else. -/
theorem Tight.push (h : Tight common w) {page : Page} (hFits : PageFits (terms common) page)
    (hOutline : page.outline = w.outlines.size) (hStack : page.stack = [Outline.root])
    (hCaptures : page.captures = [Capture.empty]) (owner : String) :
    Tight common { w with
      pages := w.pages.push page
      outlines := w.outlines.push (Outline.start owner) } := by
  have hPages : ∀ (q : Nat) (other : Page), (w.pages.push page)[q]? = some other →
      other = page ∨ w.pages[q]? = some other := by
    intro q other hOther
    rw [Array.getElem?_push] at hOther
    split at hOther
    · exact .inl (Option.some.inj hOther).symm
    · exact .inr hOther
  have hGrown : Grown w.outlines (w.outlines.push (Outline.start owner)) := by
    intro n o hOld
    have hBound := (Array.getElem?_eq_some_iff.mp hOld).1
    refine ⟨o, ?_, Extends.refl o⟩
    rw [Array.getElem?_push, if_neg (Nat.ne_of_lt hBound)]
    exact hOld
  constructor
  case bodies => exact h.bodies
  case globals => exact h.globals
  case vault => exact h.vault
  case settings => exact h.settings
  case pages =>
    intro q other hOther
    rcases hPages q other hOther with rfl | hOld
    · exact hFits
    · exact h.pages q other hOld
  case drafts =>
    intro q other hOther
    rcases hPages q other hOther with rfl | hOld
    · refine ⟨Outline.start owner, ?_, ?_⟩
      · rw [hOutline]
        exact Array.getElem?_push_size
      · rw [hStack, hCaptures]
        exact ⟨⟨rfl, Nat.one_pos⟩, captureHolds_empty _ _, aligned_nil _ _⟩
    · exact (h.drafts q other hOld).grow hGrown
  case outlines =>
    intro n o hOutline
    rw [Array.getElem?_push] at hOutline
    split at hOutline
    · cases hOutline
      exact whole_start owner
    · exact h.outlines n o hOutline

theorem upholds_newPage {place : Place} {vars : Bindings} {context : Context} {chain : List Place}
    (hVars : BindingsFit (Value.isStainless common.directives) vars)
    (hDirectives : context.directives = common.directives) (hCache : context.cache = common.cache) :
    Upholds (Tight common) (newPage place vars context chain) fun _ => True := by
  unfold newPage
  refine Upholds.bind_check fun id _ => Upholds.bind_get fun w hTight => ?_
  have hFits : PageFits (terms common)
      { place, vars, context, id, chain, outline := w.outlines.size } :=
    ⟨hDirectives, hCache, hVars⟩
  refine ends_set_bind (ends_pure ⟨trivial, ?_⟩)
  exact hTight.push hFits rfl rfl rfl id

theorem upholds_relatedPage {name vars : Value}
    (hVars : vars.isStainless common.directives = true) :
    Upholds (Tight common) (relatedPage p name vars) fun _ => True := by
  unfold relatedPage
  refine (upholds_page p).bind fun page hPage => ?_
  refine (looks_locate _ _ _).upholds.seq fun place => ?_
  refine Upholds.bind_check fun more hMore => ?_
  have hMerged := hPage.vars.merge (closed_isStainless.ofMap hVars hMore)
  exact upholds_newPage hMerged hPage.directives hPage.cache

/-! ## Including and extending -/

/-- Preparing a page keeps all text where it belongs. -/
def Prepares (common : Context) (prepare : Nat → SiteM Unit) : Prop :=
  ∀ p, Upholds (Tight common) (prepare p) fun _ => True

variable {prepare : Nat → SiteM Unit}

theorem upholds_renderPage (hPrepare : Prepares common prepare) (p : Nat) :
    Upholds (Tight common) (renderPage prepare p) fun text => Clean text.toList :=
  (hPrepare p).bind fun _ _ => upholds_renderBlock p _

theorem upholds_includePage (hPrepare : Prepares common prepare) {name vars : Value}
    (hVars : vars.isStainless common.directives = true) :
    Upholds (Tight common) (includePage prepare p name vars) fun text => Clean text.toList := by
  unfold includePage
  refine (upholds_relatedPage hVars).bind fun other _ => ?_
  exact (upholds_renderPage hPrepare other).bind fun text hText => upholds_track hText

theorem upholds_cachedInclude (hPrepare : Prepares common prepare) {name vars lifetime : Value}
    (hVars : vars.isStainless common.directives = true) :
    Upholds (Tight common) (cachedInclude prepare p name vars lifetime) fun text =>
      Clean text.toList := by
  unfold cachedInclude
  refine (upholds_page p).bind fun page hPage => (upholds_requireCache page).bind ?_
  intro cache hKnown
  have hCache : common.cache = some cache := hPage.cache.symm.trans hKnown
  refine (upholds_relatedPage hVars).bind fun other _ => (upholds_page other).bind fun found _ => ?_
  refine (upholds_remembered hCache (upholds_renderPage hPrepare other)).bind ?_
  exact fun text hText => upholds_track hText

/-- A page that goes on with the outline of another one has nothing captured yet and only the root
open, which every outline has. -/
theorem upholds_adopt (base : Nat) (name : Value) :
    Upholds (Tight common) (adopt p base name) fun _ => True := by
  unfold adopt
  refine Upholds.bind_page fun w prepared hTight hBase => ends_modify_bind ?_
  refine upholds_onDraft (keepsPlaced_markExtended _) _ (hTight.modify (Grown.refl _)
    hTight.outlines fun page hPage => ⟨?_, ?_⟩)
  · obtain ⟨hDirectives, hCache, hVars⟩ := hTight.pages p page hPage
    refine ⟨hDirectives, hCache, ?_⟩
    have hBaseVars := (hTight.pages base prepared hBase).vars
    exact hBaseVars.merge fun entry hMem => hVars entry (List.mem_filter.mp hMem).1
  · obtain ⟨o, hOutline, hPlaced⟩ := hTight.placed hBase
    exact ⟨o, hOutline, ⟨rfl, hPlaced.outline.root⟩, captureHolds_empty _ _, aligned_nil _ _⟩

theorem upholds_extend (hPrepare : Prepares common prepare) (name : Value) :
    Upholds (Tight common) (extend prepare p name) fun _ => True := by
  unfold extend
  refine (upholds_page p).bind fun page hPage => (looks_locate _ _ _).upholds.seq fun place => ?_
  dsimp only
  split
  · exact Upholds.bind_check fun fault _ => upholds_throw fault
  · refine (upholds_newPage hPage.vars hPage.directives hPage.cache).bind fun base _ => ?_
    refine Upholds.seq ?_ fun _ => (hPrepare base).seq fun _ => upholds_adopt base name
    refine upholds_updatePage (fun other hFits => ?_) fun _ _ hDrafted => hDrafted
    exact ⟨hFits.directives, hFits.cache, hFits.vars⟩

end Pages

end PageBlocks.Filling
