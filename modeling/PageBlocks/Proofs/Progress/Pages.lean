import PageBlocks.Proofs.Deferral.Fragments
import PageBlocks.Proofs.Progress.Steps
import PageBlocks.Proofs.Upkeep.Directives

/-!
# Runs over pages are courses

Reading and changing pages, making pages for others, including and extending: whatever a body has
done to the pages of its site that way, the site went a course of single steps there, also where the
run failed (`Kept`). Pages keep to terms meanwhile: their contexts are of some kind, and their
variables pass a check (`Suits`).

Preparing other pages is a parameter, as it is for the site. It has to keep this up for fresh pages
only, since a page is prepared once, right after it was made (`Prepares`).
-/

set_option autoImplicit false

namespace PageBlocks.Progress

open PageBlocks.Body PageBlocks.Cache PageBlocks.Deferral PageBlocks.Running PageBlocks.Site
  PageBlocks.Upkeep

/-! ## Terms -/

/-- What pages have in common, and what their bodies may do. -/
structure Terms where
  /-- The files that templates are in. -/
  files : FileTree Source → Prop
  /-- The contexts of pages. -/
  context : Context → Prop
  /-- The values that bodies compute with. -/
  fits : Value → Bool
  /-- Whether bodies may include other pages. -/
  includes : Bool

/-- Whether bodies may call a directive. One that passes a request on may change the files and the
settings too. -/
def Terms.allows (t : Terms) : Directive → Bool
  | .request _ => false
  | .includePage | .cachedInclude _ | .inserter => t.includes
  | _ => true

/-- A page that keeps to terms and has an outline that is there. -/
structure Suits (t : Terms) (outlines : Array Outline) (page : Page) : Prop where
  context : t.context page.context
  vars : BindingsFit t.fits page.vars
  outline : page.outline < outlines.size

/-- A site that went a course, with pages that keep to terms. -/
structure Kept (t : Terms) (w₀ w : World) : Prop where
  files : t.files w₀.files
  course : Course w₀ w
  pages : ∀ (p : Nat) (page : Page), w.pages[p]? = some page → Suits t w.outlines page

/-- A page in which no block is open. -/
def Fresh (p : Nat) (w : World) : Prop :=
  ∃ page, w.pages[p]? = some page ∧ page.stack = [Outline.root]

section Terms

variable {t : Terms} {w₀ w w' : World} {p : Nat}

theorem Kept.refl (hFiles : t.files w.files) (h : ∀ (p : Nat) (page : Page),
    w.pages[p]? = some page → Suits t w.outlines page) : Kept t w w := ⟨hFiles, .refl, h⟩

/-- A site that keeps to terms does so from now on. -/
theorem Kept.now (h : Kept t w₀ w) : Kept t w w := by
  refine Kept.refl ?_ h.pages
  rw [h.course.files]
  exact h.files

theorem Kept.trans (h : Kept t w₀ w) (h' : Kept t w w') : Kept t w₀ w' :=
  ⟨h.files, h.course.trans h'.course, h'.pages⟩

/-- What leaves the pages and the files alone is a step. -/
theorem Kept.aside (h : Kept t w₀ w) (hFiles : w'.files = w.files) (hPages : w'.pages = w.pages)
    (hOutlines : w'.outlines = w.outlines) : Kept t w₀ w' := by
  refine ⟨h.files, h.course.tail (.aside hFiles hPages hOutlines), ?_⟩
  rw [hPages, hOutlines]
  exact h.pages

theorem Suits.mono {outlines outlines' : Array Outline} {page : Page} (h : Suits t outlines page)
    (hSize : outlines.size ≤ outlines'.size) : Suits t outlines' page :=
  ⟨h.context, h.vars, Nat.lt_of_lt_of_le h.outline hSize⟩

/-- Pages keep to terms if the page that was replaced does. -/
theorem Kept.modified (h : Kept t w₀ w) {f : Page → Page} {outlines : Array Outline}
    (hSize : outlines.size = w.outlines.size)
    (hNew : ∀ page, w.pages[p]? = some page → Suits t w.outlines page →
      Suits t w.outlines (f page)) :
    ∀ (q : Nat) (page : Page), (w.pages.modify p f)[q]? = some page → Suits t outlines page := by
  intro q page hPage
  rw [Array.getElem?_modify] at hPage
  split at hPage
  · rename_i hSame
    obtain ⟨old, hOld, rfl⟩ := Option.map_eq_some_iff.mp hPage
    exact (hNew old (hSame ▸ hOld) (h.pages q old hOld)).mono (Nat.le_of_eq hSize.symm)
  · exact (h.pages q page hPage).mono (Nat.le_of_eq hSize.symm)

/-- A fresh page stays so while it gets another mode. -/
theorem Fresh.revise (h : Fresh p w) (q : Nat) (f : Page → Page)
    (hStack : ∀ page, (f page).stack = page.stack) :
    Fresh p { w with pages := w.pages.modify q f } := by
  obtain ⟨page, hPage, hOpen⟩ := h
  show ∃ page, (w.pages.modify q f)[p]? = some page ∧ page.stack = [Outline.root]
  rw [Array.getElem?_modify, hPage]
  split
  · exact ⟨f page, rfl, (hStack page).trans hOpen⟩
  · exact ⟨page, rfl, hOpen⟩

end Terms

section Pages

variable {t : Terms} {w₀ w : World} {p : Nat}

/-! ## Reading -/

theorem upholds_page (p : Nat) :
    Upholds (Kept t w₀) (page p) fun page => t.context page.context :=
  upholds_page_of fun _ page hKept hPage => (hKept.pages p page hPage).context

/-- The place of a template is that of a file. -/
theorem isFileAt_of_placeAt {files : FileTree Source} {locator : Locator} {name : Value}
    {extra : List Path} {place : Place} (h : placeAt files locator name extra = .ok place) :
    files.isFileAt place = true := by
  have hFirst : ∀ {candidates : List Path}, Locator.firstFile? files candidates = some place →
      files.isFileAt place = true := by
    intro candidates hFound
    obtain ⟨path, -, hPath⟩ := List.exists_of_findSome?_eq_some hFound
    exact FileTree.isFileAt_of_file? hPath
  unfold placeAt at h
  split at h
  · rename_i s
    unfold Locator.locate at h
    dsimp only at h
    split at h
    · rename_i found hFound
      cases h
      exact hFirst hFound
    · obtain ⟨given, -, h⟩ := bind_eq_ok h
      split at h
      · rename_i found hFound
        cases h
        exact FileTree.isFileAt_of_file? hFound
      · cases h
  · cases h
  · cases h

/-- What leaves pages and files alone is part of a course. -/
theorem upholds_of_staysAside {α : Type} {x : SiteM α} (h : StaysAside x) :
    Upholds (Kept t w₀) x fun _ => True :=
  fun w hKept => Ends.mono (h w)
    (fun _ _ hAside => ⟨trivial, hKept.aside hAside.files hAside.pages hAside.outlines⟩)
    fun _ hAside => hKept.aside hAside.files hAside.pages hAside.outlines

theorem upholds_onVault {α : Type} (x : VaultM α) :
    Upholds (Kept t w₀) (onVault x) fun _ => True :=
  upholds_onVault_of fun _ hKept => hKept.aside rfl rfl rfl

theorem upholds_renderBlock (p i : Nat) :
    Upholds (Kept t w₀) (renderBlock p i) fun _ => True :=
  (upholds_page p).bind fun _ _ => (looks_outlineOf p).upholds.seq fun _ => upholds_onVault _

/-! ## Changing -/

/-- Other variables, another mode or a mark. -/
theorem upholds_updatePage {f : Page → Page} (hSame : ∀ page, SameDraft page (f page))
    (hVars : ∀ page, BindingsFit t.fits page.vars → BindingsFit t.fits (f page).vars) :
    Upholds (Kept t w₀) (updatePage p f) fun _ => True := by
  refine upholds_updatePage_of fun w hKept => ⟨hKept.files, hKept.course.tail (.revise p hSame),
    hKept.modified rfl fun page _ hSuits => ?_⟩
  refine ⟨?_, hVars page hSuits.vars, ?_⟩
  · rw [(hSame page).context]
    exact hSuits.context
  · rw [(hSame page).outline]
    exact hSuits.outline

/-- A step of the draft of a page. -/
theorem ends_onDraft {α : Type} {x : DraftM α} {page : Page} (hKept : Kept t w₀ w)
    (hPage : w.pages[p]? = some page)
    (hMoved : ∀ o, Moved (draftOf page o) (x.run (draftOf page o)).2) :
    Ends (onDraft p x) w (fun _ => Kept t w₀) (Kept t w₀) := by
  have hBound := (hKept.pages p page hPage).outline
  have hOutline : w.outlines[page.outline]? = some w.outlines[page.outline] :=
    Array.getElem?_eq_getElem hBound
  unfold onDraft
  refine ends_bind_of_run (run_page hPage) (ends_bind_of_run (run_outlineOf hPage hOutline) ?_)
  refine ends_modify_bind (Ends.mono (upholds_check (fun _ _ => trivial) _ ?_)
    (fun _ _ hEnd => hEnd.2) fun _ => id)
  refine ⟨hKept.files, hKept.course.tail (.draft hPage hOutline (hMoved _)), ?_⟩
  refine hKept.modified (Array.size_modify ..) fun old _ hOld => ?_
  exact ⟨hOld.context, hOld.vars, hOld.outline⟩

theorem upholds_onDraft {α : Type} {x : DraftM α} (hMoved : ∀ d, Moved d (x.run d).2) :
    Upholds (Kept t w₀) (onDraft p x) fun _ => True := by
  intro w hKept
  cases hPage : w.pages[p]? with
  | some page =>
    refine Ends.mono (ends_onDraft hKept hPage fun _ => hMoved _) ?_ fun _ => id
    exact fun _ _ hEnd => ⟨trivial, hEnd⟩
  | none =>
    unfold onDraft
    exact ends_bind_of_run_error (run_page_error hPage) hKept

theorem upholds_track (text : String) : Upholds (Kept t w₀) (track p text) fun _ => True :=
  upholds_track_of
    (upholds_updatePage (fun _ => ⟨⟨rfl, rfl, rfl, rfl⟩, rfl, rfl, rfl⟩) fun _ h => h) text

/-! ## New pages -/

/-- A new page comes with an outline of its own, which has the root and nothing else. -/
theorem run_newPage_eq_ok {place : Place} {vars : Bindings} {context : Context} {chain : List Place}
    {b : Nat} {w' : World} (h : (newPage place vars context chain).run w = (.ok b, w')) :
    ∃ id, Identity.page (Path.absolute place).print vars = .ok id ∧ b = w.pages.size
      ∧ w' = { w with
        pages := w.pages.push { place, vars, context, id, chain, outline := w.outlines.size }
        outlines := w.outlines.push (Outline.start id) } := by
  obtain ⟨id, w₁, hId, h⟩ := run_bind_eq_ok h
  cases hFound : Identity.page (Path.absolute place).print vars with
  | error fault =>
    rw [run_check_error hFound] at hId
    cases hId
  | ok found =>
    rw [run_check hFound] at hId
    cases hId
    cases h
    exact ⟨id, rfl, rfl, rfl⟩

/-- A page is made for another one, and no block is open in it. -/
theorem ends_newPage {q : Nat} {parent : Page} {place : Place} {vars : Bindings}
    {chain : List Place} (hKept : Kept t w₀ w) (hParent : w.pages[q]? = some parent)
    (hFile : w.files.isFileAt place = true) (hVars : BindingsFit t.fits vars)
    (hChain : chain = [] ∨ chain = parent.chain ++ [parent.place]
      ∧ place ∉ parent.chain ++ [parent.place]) :
    Ends (newPage place vars parent.context chain) w (fun b w' => Fresh b w' ∧ Kept t w₀ w')
      (Kept t w₀) := by
  unfold newPage
  cases hId : Identity.page (Path.absolute place).print vars with
  | error fault => exact ends_bind_of_run_error (run_check_error rfl w) hKept
  | ok id =>
    refine ends_bind_of_run (run_check rfl w) (ends_get_bind (ends_set_bind (ends_pure ?_)))
    have hMade : MadeFor w parent
        { place, vars, context := parent.context, id, chain, outline := w.outlines.size } :=
      ⟨hFile, rfl, hChain, rfl, rfl, rfl⟩
    refine ⟨⟨_, Array.getElem?_push_size, rfl⟩, hKept.files,
      hKept.course.tail (.push hParent hMade id), ?_⟩
    intro p page hPage
    have hSize : w.outlines.size < (w.outlines.push (Outline.start id)).size := by
      rw [Array.size_push]
      exact Nat.lt_succ_self _
    rw [Array.getElem?_push] at hPage
    split at hPage
    · cases hPage
      exact ⟨(hKept.pages q parent hParent).context, hVars, hSize⟩
    · exact (hKept.pages p page hPage).mono (Nat.le_of_lt hSize)

theorem ends_relatedPage {name vars : Value} (hClosed : Closed t.fits)
    (hVars : t.fits vars = true) (hKept : Kept t w₀ w) :
    Ends (relatedPage p name vars) w (fun b w' => Fresh b w' ∧ Kept t w₀ w') (Kept t w₀) := by
  unfold relatedPage
  cases hPage : w.pages[p]? with
  | none => exact ends_bind_of_run_error (run_page_error hPage) hKept
  | some page =>
    refine ends_bind_of_run (run_page hPage) ?_
    have hRun := run_locate page.context.locator name [page.path.parent] w
    cases hPlace : placeAt w.files page.context.locator name [page.path.parent] with
    | error fault => exact ends_bind_of_run_error (hRun.trans (by rw [hPlace])) hKept
    | ok place =>
      refine ends_bind_of_run (hRun.trans (by rw [hPlace])) ?_
      cases hMore : Bindings.ofMap vars with
      | error fault => exact ends_bind_of_run_error (run_check_error rfl w) hKept
      | ok more =>
        refine ends_bind_of_run (run_check rfl w) ?_
        have hMerged := (hKept.pages p page hPage).vars.merge (hClosed.ofMap hVars hMore)
        exact ends_newPage hKept hPage (isFileAt_of_placeAt hPlace) hMerged (.inl rfl)

/-! ## Including and extending -/

/-- Preparing a fresh page is part of a course. -/
def Prepares (t : Terms) (prepare : Nat → SiteM Unit) : Prop :=
  ∀ (w₀ w : World) (p : Nat), Kept t w₀ w → Fresh p w →
    Ends (prepare p) w (fun _ => Kept t w₀) (Kept t w₀)

variable {prepare : Nat → SiteM Unit}

theorem ends_renderPage (hPrepare : Prepares t prepare) (hKept : Kept t w₀ w) (hFresh : Fresh p w) :
    Ends (renderPage prepare p) w (fun _ w' => True ∧ Kept t w₀ w') (Kept t w₀) :=
  Ends.bind (hPrepare w₀ w p hKept hFresh) fun _ w' hKept' => upholds_renderBlock p _ w' hKept'

theorem upholds_includePage (hClosed : Closed t.fits) (hPrepare : Prepares t prepare)
    {name vars : Value} (hVars : t.fits vars = true) :
    Upholds (Kept t w₀) (includePage prepare p name vars) fun _ => True := by
  intro w hKept
  unfold includePage
  refine Ends.bind (ends_relatedPage hClosed hVars hKept) fun other w₁ hOther => ?_
  refine Ends.bind (ends_renderPage hPrepare hOther.2 hOther.1) fun text w₂ hText => ?_
  exact upholds_track text w₂ hText.2

/-- A page goes on with the outline of a page that was prepared for it. -/
theorem upholds_adopt (base : Nat) (name : Value) :
    Upholds (Kept t w₀) (adopt p base name) fun _ => True := by
  unfold adopt
  refine Upholds.bind_page fun w prepared hKept hBase => ends_modify_bind ?_
  refine upholds_onDraft (fun _ => .markRoot) _ ?_
  have hPrepared := hKept.pages base prepared hBase
  have hAdopts : ∀ page : Page, Adopts prepared page
      { page with
        vars := Table.merge prepared.vars (page.vars.filter fun entry => entry.1 == entry.1)
        mode := prepared.mode
        deferred := page.deferred || prepared.deferred
        outline := prepared.outline
        stack := [Outline.root]
        captures := [Capture.empty]
        base := some name } := fun _ => ⟨⟨rfl, rfl, rfl, rfl⟩, rfl, rfl, rfl⟩
  refine ⟨hKept.files, hKept.course.tail (.adopt p hBase hAdopts), hKept.modified rfl ?_⟩
  intro page _ hSuits
  refine ⟨hSuits.context, hPrepared.vars.merge fun entry hMem => ?_, hPrepared.outline⟩
  exact hSuits.vars entry (List.mem_filter.mp hMem).1

theorem upholds_extend (hPrepare : Prepares t prepare) (name : Value) :
    Upholds (Kept t w₀) (extend prepare p name) fun _ => True := by
  unfold extend
  refine Upholds.bind_page fun w page hKept hPage => ?_
  have hRun := run_locate page.context.locator name [page.path.parent] w
  cases hPlace : placeAt w.files page.context.locator name [page.path.parent] with
  | error fault => exact ends_bind_of_run_error (hRun.trans (by rw [hPlace])) hKept
  | ok place =>
    refine ends_bind_of_run (hRun.trans (by rw [hPlace])) ?_
    dsimp only
    split
    · have hThrows : Upholds (Kept t w₀) (do
          throw (← check (Fault.ofCycle? (((page.chain ++ [page.place]) ++ [place]).map fun place =>
            (Path.absolute place).print))) : SiteM Unit) fun _ => True :=
        Upholds.bind_check fun fault _ => upholds_throw fault
      exact hThrows w hKept
    · rename_i hNew
      have hOutside : place ∉ page.chain ++ [page.place] := by
        rwa [List.contains_iff_mem] at hNew
      have hNewPage := ends_newPage hKept hPage (isFileAt_of_placeAt hPlace)
        (hKept.pages p page hPage).vars (.inr ⟨rfl, hOutside⟩)
      refine Ends.bind hNewPage fun base w₁ hBase => ends_modify_bind ?_
      have hStart := hBase.1.revise base fun other => { other with mode := page.mode }
      have hKept₁ := Upholds.run (upholds_updatePage (p := base)
        (f := fun other => { other with mode := page.mode })
        (fun _ => ⟨⟨rfl, rfl, rfl, rfl⟩, rfl, rfl, rfl⟩) fun _ h => h) hBase.2
      refine Ends.bind (hPrepare w₀ _ base hKept₁ (hStart fun _ => rfl)) fun _ w₂ hKept₂ => ?_
      exact upholds_adopt base name w₂ hKept₂

end Pages

end PageBlocks.Progress
