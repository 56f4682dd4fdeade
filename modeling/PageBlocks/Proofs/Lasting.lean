import PageBlocks.Proofs.Progress.Calls

/-!
# Properties of sites that bodies cannot end

A body changes the pages of its site in a few ways only: it gives a page other variables or another
cache mode, it moves the draft of a page on (`Drawn`), it makes a page with the identity that its
path and its variables give it, or it lets a page go on with the outline of another one. A property
that none of these changes ends is an invariant (`Invariant`).

The steps that pages are made of uphold every invariant, also where they fail. So do all directives
that are made of them (`backs`), whatever values they are called with, and running a body if
preparing other pages does. By induction on how deep that nests, preparing a page upholds every
invariant (`prepares_prepareFrom`).

Unlike the steps of a course, a step of a draft tells here how the blocks are made that a page
declares.
-/

set_option autoImplicit false

namespace PageBlocks.Lasting

open PageBlocks.Body PageBlocks.Cache PageBlocks.Deferral PageBlocks.Guards PageBlocks.Policy
  PageBlocks.Progress PageBlocks.Running PageBlocks.Site PageBlocks.Upkeep

/-! ## Changes -/

/-- A draft of the page of an identity, and what a step that the body of that page takes makes of
it, whether the step fails or not. -/
inductive Drawn (owner : String) (d : Draft) : Draft → Prop
  | openBlock (name : Value) (mode : ApplyMode) :
    Drawn owner d ((Draft.openBlock name mode).run d).2
  | addBlock {name lifetime : Value} {kind : BlockKind} {transform : Option Transform} {b : Block}
    (hBlock : Block.declare owner name kind lifetime transform = .ok b) (mode : ApplyMode) :
    Drawn owner d ((Draft.addBlock b mode).run d).2
  | write (v : Value) : Drawn owner d ((Draft.write v).run d).2
  | close : Drawn owner d (Draft.close.run d).2
  | finish : Drawn owner d (Draft.finish.run d).2
  | markRoot : Drawn owner d ((Draft.markExtended Outline.root).run d).2
  | resetCaptures : Drawn owner d (Draft.resetCaptures.run d).2

/-- A property of sites with pages that pass no requests on, that no change made by a body ends. -/
structure Invariant (I : World → Prop) : Prop where
  context : ∀ {w : World} {p : Nat} {page : Page}, I w → w.pages[p]? = some page →
    AsksNothing page.context
  outline : ∀ {w : World} {p : Nat} {page : Page}, I w → w.pages[p]? = some page →
    ∃ o, w.outlines[page.outline]? = some o
  aside : ∀ {w w' : World}, I w → w'.pages = w.pages → w'.outlines = w.outlines → I w'
  revise : ∀ {w : World} (p : Nat) {f : Page → Page}, I w → (∀ page, SameDraft page (f page)) →
    I { w with pages := w.pages.modify p f }
  draft : ∀ {w : World} {p : Nat} {page : Page} {o : Outline} {d : Draft}, I w →
    w.pages[p]? = some page → w.outlines[page.outline]? = some o →
    Drawn page.id (draftOf page o) d →
    I { w with
      pages := w.pages.modify p fun page => { page with stack := d.stack, captures := d.captures }
      outlines := w.outlines.modify page.outline fun _ => d.outline }
  push : ∀ {w : World} {place : Place} {vars : Bindings} {context : Context} {id : String}
    (chain : List Place), I w → AsksNothing context →
    Identity.page (Path.absolute place).print vars = .ok id →
    I { w with
      pages := w.pages.push { place, vars, context, id, chain, outline := w.outlines.size }
      outlines := w.outlines.push (Outline.start id) }
  adopt : ∀ {w : World} (p : Nat) {base : Nat} {prepared : Page} {f : Page → Page}, I w →
    w.pages[base]? = some prepared → (∀ page, Adopts prepared page (f page)) →
    I { w with pages := w.pages.modify p f }

section Pages

variable {I : World → Prop} {w : World} {p : Nat}

/-! ## Reading -/

theorem upholds_page (hI : Invariant I) (p : Nat) :
    Upholds I (page p) fun page => AsksNothing page.context :=
  upholds_page_of fun _ _ hInv hPage => hI.context hInv hPage

/-- What leaves pages and caches alone upholds every invariant. -/
theorem upholds_of_staysAside (hI : Invariant I) {α : Type} {x : SiteM α} (h : StaysAside x) :
    Upholds I x fun _ => True := by
  intro w hInv
  refine Ends.mono (h w) ?_ ?_
  · intro _ w' hAside
    exact ⟨trivial, hI.aside hInv hAside.pages hAside.outlines⟩
  · intro w' hAside
    exact hI.aside hInv hAside.pages hAside.outlines

theorem upholds_onVault (hI : Invariant I) {α : Type} (x : VaultM α) :
    Upholds I (onVault x) fun _ => True :=
  upholds_onVault_of fun _ hInv => hI.aside hInv rfl rfl

theorem upholds_renderBlock (hI : Invariant I) (p i : Nat) :
    Upholds I (renderBlock p i) fun _ => True :=
  (upholds_page hI p).bind fun _ _ => (looks_outlineOf p).upholds.seq fun _ => upholds_onVault hI _

/-- So does computing by way of the cache. -/
theorem upholds_remembered (hI : Invariant I) (cache : Ref) (key : String) (lifetime : Value)
    {compute : SiteM String} (hCompute : Upholds I compute fun _ => True) :
    Upholds I (Site.remembered cache key lifetime compute) fun _ => True :=
  upholds_remembered_of (upholds_onVault hI _) hCompute fun _ => upholds_onVault hI _

/-! ## Changing -/

theorem upholds_updatePage (hI : Invariant I) {f : Page → Page}
    (hSame : ∀ page, SameDraft page (f page)) : Upholds I (updatePage p f) fun _ => True :=
  upholds_updatePage_of fun _ hInv => hI.revise p hInv hSame

/-- A step of the draft of a page that is there. -/
theorem ends_onDraft (hI : Invariant I) {α : Type} {x : DraftM α} {page : Page} (hInv : I w)
    (hPage : w.pages[p]? = some page) (hDrawn : ∀ d, Drawn page.id d (x.run d).2) :
    Ends (onDraft p x) w (fun _ w' => True ∧ I w') I := by
  obtain ⟨o, hOutline⟩ := hI.outline hInv hPage
  unfold onDraft
  refine ends_bind_of_run (run_page hPage) (ends_bind_of_run (run_outlineOf hPage hOutline) ?_)
  refine ends_modify_bind (upholds_check (fun _ _ => trivial) _ ?_)
  exact hI.draft hInv hPage hOutline (hDrawn _)

theorem upholds_onDraft (hI : Invariant I) {α : Type} {x : DraftM α}
    (hDrawn : ∀ owner d, Drawn owner d (x.run d).2) :
    Upholds I (onDraft p x) fun _ => True := by
  intro w hInv
  cases hPage : w.pages[p]? with
  | some page => exact ends_onDraft hI hInv hPage (hDrawn page.id)
  | none =>
    unfold onDraft
    exact ends_bind_of_run_error (run_page_error hPage) hInv

theorem upholds_track (hI : Invariant I) (text : String) :
    Upholds I (track p text) fun _ => True :=
  upholds_track_of (upholds_updatePage hI fun _ => ⟨⟨rfl, rfl, rfl, rfl⟩, rfl, rfl, rfl⟩) text

/-! ## New pages -/

theorem upholds_newPage (hI : Invariant I) (place : Place) (vars : Bindings) {context : Context}
    (hContext : AsksNothing context) (chain : List Place) :
    Upholds I (newPage place vars context chain) fun _ => True := by
  unfold newPage
  refine Upholds.bind_check fun id hId => Upholds.bind_get fun w hInv => ?_
  exact ends_set_bind (ends_pure ⟨trivial, hI.push chain hInv hContext hId⟩)

theorem upholds_relatedPage (hI : Invariant I) (name vars : Value) :
    Upholds I (relatedPage p name vars) fun _ => True := by
  unfold relatedPage
  refine (upholds_page hI p).bind fun page hContext => ?_
  refine (looks_locate _ _ _).upholds.seq fun place => ?_
  exact Upholds.bind_check fun more _ => upholds_newPage hI place _ hContext []

/-! ## Including and extending -/

/-- Preparing a page upholds an invariant. -/
def Prepares (I : World → Prop) (prepare : Nat → SiteM Unit) : Prop :=
  ∀ p, Upholds I (prepare p) fun _ => True

variable {prepare : Nat → SiteM Unit}

theorem upholds_renderPage (hI : Invariant I) (hPrepare : Prepares I prepare) (p : Nat) :
    Upholds I (renderPage prepare p) fun _ => True := by
  unfold renderPage
  exact (hPrepare p).seq fun _ => upholds_renderBlock hI p _

theorem upholds_includePage (hI : Invariant I) (hPrepare : Prepares I prepare)
    (name vars : Value) : Upholds I (includePage prepare p name vars) fun _ => True := by
  unfold includePage
  refine (upholds_relatedPage hI name vars).seq fun other => ?_
  exact (upholds_renderPage hI hPrepare other).seq fun text => upholds_track hI text

/-- A page goes on with the outline of a page that was prepared for it. -/
theorem upholds_adopt (hI : Invariant I) (base : Nat) (name : Value) :
    Upholds I (adopt p base name) fun _ => True := by
  unfold adopt
  refine Upholds.bind_page fun w prepared hInv hBase => ends_modify_bind ?_
  refine upholds_onDraft hI (fun _ _ => .markRoot) _ ?_
  exact hI.adopt p hInv hBase fun _ => ⟨⟨rfl, rfl, rfl, rfl⟩, rfl, rfl, rfl⟩

theorem upholds_extend (hI : Invariant I) (hPrepare : Prepares I prepare) (name : Value) :
    Upholds I (extend prepare p name) fun _ => True := by
  unfold extend
  refine (upholds_page hI p).bind fun page hContext => ?_
  refine (looks_locate _ _ _).upholds.seq fun place => ?_
  dsimp only
  split
  · exact Upholds.bind_check fun fault _ => upholds_throw fault
  · refine (upholds_newPage hI place page.vars hContext _).seq fun base => ?_
    refine Upholds.seq ?_ fun _ => (hPrepare base).seq fun _ => upholds_adopt hI base name
    exact upholds_updatePage hI fun _ => ⟨⟨rfl, rfl, rfl, rfl⟩, rfl, rfl, rfl⟩

end Pages

section Calls

variable {I : World → Prop} {p : Nat} {prepare : Nat → SiteM Unit}

/-! ## Directives -/

/-- The page that declares a block is the one whose draft moves on. -/
theorem upholds_declareBlock (hI : Invariant I) (name : Value) (kind : BlockKind)
    (lifetime : Value) (transform : Option Transform) :
    Upholds I (declareBlock p name kind lifetime transform) fun _ => True := by
  unfold declareBlock
  refine Upholds.bind_page fun w page hInv hPage => ?_
  cases hBlock : Block.declare page.id name kind lifetime transform with
  | error fault => exact ends_bind_of_run_error (run_check_error rfl w) hInv
  | ok b =>
    -- the site is the one that the page was read from
    refine ends_bind_of_run (run_check rfl w) ?_
    refine Ends.bind (ends_onDraft hI hInv hPage fun d => .addBlock hBlock .replace) ?_
    intro i w' hEnd
    exact ends_pure hEnd

theorem upholds_cachedFetch (hI : Invariant I) (url lifetime : Value) :
    Upholds I (cachedFetch p url lifetime) fun _ => True := by
  unfold cachedFetch
  refine (upholds_page hI p).bind fun page _ => (upholds_requireCache page).bind fun cache _ => ?_
  apply upholds_remembered hI
  exact upholds_of_staysAside hI (staysAside_fetch url)

theorem upholds_cachedInclude (hI : Invariant I) (hPrepare : Prepares I prepare)
    (name vars lifetime : Value) :
    Upholds I (cachedInclude prepare p name vars lifetime) fun _ => True := by
  unfold cachedInclude
  refine (upholds_page hI p).bind fun page _ => (upholds_requireCache page).bind fun cache _ => ?_
  refine (upholds_relatedPage hI name vars).seq fun other => ?_
  refine (upholds_page hI other).bind fun found _ => Upholds.seq ?_ fun text =>
    upholds_track hI text
  apply upholds_remembered hI
  exact upholds_renderPage hI hPrepare other

/-- The steps of directives uphold invariants, for all that pass no request on. -/
theorem backs (hI : Invariant I) (hPrepare : Prepares I prepare) (p : Nat) :
    Backs I anything.fits (fun _ => True) (fun directive => unrestricted.allows directive = true)
      prepare p where
  closed := closed_anything
  word _ := rfl
  text _ := trivial
  inserter _ _ := trivial
  currentName _ _ := trivial
  openBlock name mode := upholds_onDraft hI fun _ _ => .openBlock name mode
  close := upholds_onDraft hI fun _ _ => .close
  write v := upholds_onDraft hI fun _ _ => .write v
  cacheable _ _ _ := upholds_declareBlock hI _ _ _ _
  markup _ _ := upholds_declareBlock hI _ _ _ _
  bind _ _ := upholds_updatePage hI fun _ => ⟨⟨rfl, rfl, rfl, rfl⟩, rfl, rfl, rfl⟩
  mode _ _ := upholds_updatePage hI fun _ => ⟨⟨rfl, rfl, rfl, rfl⟩, rfl, rfl, rfl⟩
  renderBlock := upholds_renderBlock hI p
  track _ := upholds_track hI
  count _ := upholds_of_staysAside hI (staysAside_count _)
  extend _ := upholds_extend hI hPrepare
  includePage _ _ _ _ := upholds_includePage hI hPrepare _ _
  cachedInclude _ _ _ _ _ := upholds_cachedInclude hI hPrepare _ _ _
  cachedFetch _ := upholds_cachedFetch hI
  answer hAllowed := Bool.noConfusion hAllowed

theorem upholds_call (hI : Invariant I) (hPrepare : Prepares I prepare) (callee : Value)
    (arguments : List Value) (named : List (String × Value)) :
    Upholds I (call prepare callee arguments named) fun _ => True := by
  refine upholds_call_of (fun q name _ w page directive hInv hPage hFound => ?_)
    (fun q name _ => ?_) fun _ _ _ _ => trivial
  · exact (backs hI hPrepare q).upholds_callDirective ((hI.context hInv hPage).allows hFound)
      (fun _ _ => rfl) fun _ _ => ⟨rfl, rfl⟩
  · exact (backs hI hPrepare q).upholds_callInserter rfl (fun _ _ => rfl) fun _ _ => ⟨rfl, rfl⟩

/-! ## Bodies -/

/-- Running the body of a page upholds an invariant if preparing other pages does. -/
theorem prepares_runBody (hI : Invariant I) (hPrepare : Prepares I prepare) :
    Prepares I (runBody prepare) := by
  intro p
  rw [runBody_eq]
  refine upholds_bodyWith_of (upholds_onDraft hI fun _ _ => .resetCaptures)
    (fun w hInv => hI.aside hInv rfl rfl) (fun _ _ items _ _ _ _ _ => ?_)
    (upholds_onDraft hI fun _ _ => .finish)
  have hWrite : ∀ s, Upholds I (onDraft p (Draft.write (.text s))) fun _ => True :=
    fun s => upholds_onDraft hI fun _ _ => .write (.text s)
  exact upholds_runAll_anything (upholds_call hI hPrepare) hWrite items

/-- Preparing a page upholds an invariant, to whatever depth that nests. -/
theorem prepares_prepareFrom (hI : Invariant I) (depth : Nat) :
    Prepares I (prepareFrom depth) := by
  induction depth with
  | zero =>
    intro p
    exact upholds_throw _
  | succ depth ih => exact prepares_runBody hI ih

end Calls

end PageBlocks.Lasting
