import PageBlocks.Proofs.Deferral.Pages

/-!
# Pages that include and extend each other

Rendering a page of a site gives a text that is laid out as the page is marked, and a page that
takes over text of another one is marked with it: what is included goes through `track`, and a page
that extends another one takes over its mark. Preparing pages is a parameter here, as it is for the
site; all that counts is that it is safe for active pages (`PreparesSafely`).
-/

set_option autoImplicit false

namespace PageBlocks.Deferral

open PageBlocks.Cache PageBlocks.Running PageBlocks.Site

section Nesting

variable {start w : World} {active : List Nat} {p : Nat}

/-- A step that is safe for more pages keeps these active, too. -/
theorem Safe.shrink {α : Type} {more : List Nat} {x : SiteM α} {post : α → World → Prop}
    (h : Safe start more w x post) (hMore : ∀ q ∈ active, q ∈ more) :
    Safe start active w x fun a w' => Held start more w' ∧ post a w' :=
  Ends.mono h (fun _ _ hEnd => ⟨hEnd.1.subset hMore, hEnd.2.1, hEnd.1, hEnd.2.2⟩)
    fun _ hEnd => hEnd

/-! ## Output -/

/-- The output of a block is laid out as its page is marked. -/
theorem safe_renderBlock (hHeld : Held start active w) (hActive : p ∈ active) (i : Nat) :
    Safe start active w (renderBlock p i) fun text w' =>
      w' = w ∧ Laid (mayTag w' p) text.toList := by
  refine Safe.bind_page hHeld fun page hPage => ?_
  obtain ⟨-, hBound⟩ := hHeld.pages p page hPage
  have hOutline : w.outlines[page.outline]? = some w.outlines[page.outline] :=
    Array.getElem?_eq_getElem hBound
  refine Safe.bind_run (run_outlineOf hPage hOutline) (Safe.bind_get ?_)
  have hLaid := hHeld.own p hActive page _ hPage hOutline
  have hRenders := rendersLaid_render hLaid (memoOf page) i w.vault
  rcases hRun : (w.outlines[page.outline].render (memoOf page) i).run w.vault with ⟨result, v⟩
  cases result with
  | ok text =>
    obtain ⟨hText, rfl⟩ := hRenders.of_run hRun
    refine Safe.bind_run (run_set w w)
      (ends_of_run (run_check rfl w) ⟨hHeld, Since.refl w, rfl, ?_⟩)
    rw [mayTag_eq hPage]
    exact hText
  | error fault =>
    obtain rfl := hRenders.of_run_error hRun
    exact Safe.bind_run (run_set w w) (safe_throw hHeld)

/-- A text that a page tracks may have tags. -/
theorem safe_track {text : String} (hHeld : Held start active w) (hActive : p ∈ active)
    (hText : Laid true text.toList) :
    Safe start active w (track p text) fun shown w' => Laid (mayTag w' p) shown.toList := by
  unfold track
  split
  · obtain ⟨page, hPage⟩ := hHeld.found p hActive
    obtain ⟨hLaid, -⟩ := hHeld.pages p page hPage
    have hMarked : PageLaid start.settings
        { page with
          deferred := true
          mode := if page.mode = .static then .dynamic else page.mode } :=
      ⟨hLaid.context, hLaid.vars, fun capture hMem s hShape =>
        (hLaid.captures capture hMem s hShape).tagged⟩
    refine Safe.bind (safe_updatePage hHeld hActive hPage hMarked rfl rfl fun _ => rfl) ?_
    intro _ w' hHeld' _ hPage'
    refine safe_pure hHeld' ?_
    rw [mayTag_eq hPage']
    exact hText
  · rename_i hNot
    exact safe_pure hHeld ((hText.of_not_isMarked (by simpa using hNot)).mono nofun)

/-! ## Other pages -/

/-- Preparing an active page is safe. -/
def PreparesSafely (start : World) (prepare : Nat → SiteM Unit) : Prop :=
  ∀ (active : List Nat) (p : Nat) (w : World), p ∈ active → Held start active w →
    Safe start active w (prepare p) fun _ _ => True

theorem gives_locate (locator : Locator) (name : Value) (extra : List Path) :
    Gives w (locate locator name extra) fun place =>
      placeAt w.files locator name extra = .ok place := by
  have hRun := run_locate locator name extra w
  cases hPlace : placeAt w.files locator name extra with
  | ok place => exact ends_of_run (hRun.trans (by rw [hPlace])) ⟨rfl, rfl⟩
  | error fault => exact ends_of_run_error (hRun.trans (by rw [hPlace])) rfl

variable {prepare : Nat → SiteM Unit}

/-- The output of a page is laid out as the page is marked. -/
theorem safe_renderPage (hPrepare : PreparesSafely start prepare) (hHeld : Held start active w)
    (hActive : p ∈ active) :
    Safe start active w (renderPage prepare p) fun text w' => Laid (mayTag w' p) text.toList := by
  refine Safe.bind (hPrepare active p w hActive hHeld) fun _ w' hHeld' _ _ => ?_
  refine (safe_renderBlock hHeld' hActive _).mono fun text w'' _ _ hText => hText.2

theorem safe_relatedPage {name vars : Value} (hHeld : Held start active w)
    (hVars : vars.isClean = true) :
    Safe start active w (relatedPage p name vars) fun other w' =>
      Held start (other :: active) w' := by
  refine Safe.bind_page hHeld fun page hPage => ?_
  obtain ⟨hLaid, -⟩ := hHeld.pages p page hPage
  refine Safe.bind_gives hHeld (gives_locate _ _ _) fun place _ => ?_
  refine Safe.bind_check hHeld fun more hMore => ?_
  have hMerged := hLaid.vars.merge (closed_isClean.ofMap hVars hMore)
  exact (safe_newPage hHeld hMerged hLaid.context).mono fun other w'' _ _ hNew => hNew.1

/-- Text of an included page is laid out as the page that includes it is marked then. -/
theorem safe_includePage {name vars : Value} (hPrepare : PreparesSafely start prepare)
    (hHeld : Held start active w) (hActive : p ∈ active) (hVars : vars.isClean = true) :
    Safe start active w (includePage prepare p name vars) fun text w' =>
      Laid (mayTag w' p) text.toList := by
  refine Safe.bind (safe_relatedPage hHeld hVars) fun other w' _ _ hHeld' => ?_
  have hBoth : Safe start (other :: active) w' (do track p (← renderPage prepare other))
      fun text w'' => Laid (mayTag w'' p) text.toList := by
    refine Safe.bind (safe_renderPage hPrepare hHeld' List.mem_cons_self) ?_
    intro text w'' hHeld'' _ hText
    exact safe_track hHeld'' (List.mem_cons_of_mem _ hActive) hText.tagged
  refine (hBoth.shrink fun q hMem => List.mem_cons_of_mem _ hMem).mono ?_
  exact fun text w'' _ _ hText => hText.2

/-! ## Extending -/

/-- An active page took over the outline of another one, and with it its mark; the other one is not
active any more. -/
theorem Held.adopted {w' : World} {base : Nat} {page' prepared : Page}
    (h : Held start (base :: active) w) (hNew : base ∉ active)
    (hBase : w.pages[base]? = some prepared) (hFiles : w'.files = w.files)
    (hPages : ∀ q, w'.pages[q]? = if q = p then some page' else w.pages[q]?)
    (hOutlines : w'.outlines = w.outlines) (hLaid : PageLaid start.settings page')
    (hOutline : page'.outline = prepared.outline)
    (hMark : prepared.deferred = true → page'.deferred = true) : Held start active w' := by
  have hFewer : ∀ q ∈ active, q ∈ base :: active := fun q hMem => List.mem_cons_of_mem _ hMem
  have hOther : ∀ q ∈ active, base ≠ q := by
    rintro q hMem rfl
    exact hNew hMem
  refine ⟨hFiles.trans h.files, ?_, ?_, ?_, ?_, ?_⟩
  · intro q other hFound
    rw [hPages] at hFound
    rw [hOutlines]
    split at hFound
    · cases hFound
      exact ⟨hLaid, hOutline ▸ (h.pages base prepared hBase).2⟩
    · exact h.pages q other hFound
  · intro n o hFound
    exact h.outlines n o (hOutlines ▸ hFound)
  · intro q hMem
    rw [hPages]
    split
    · exact ⟨page', rfl⟩
    · exact h.found q (hFewer q hMem)
  · intro q hMem other o hFound hHas
    rw [hPages] at hFound
    rw [hOutlines] at hHas
    split at hFound
    · cases hFound
      rw [hOutline] at hHas
      exact (h.own base List.mem_cons_self prepared o hBase hHas).mono hMark
    · exact h.own q (hFewer q hMem) other o hFound hHas
  · intro q hMem r hMem' hNe other another hFound hFound'
    rw [hPages] at hFound hFound'
    split at hFound
    · rename_i hq
      cases hFound
      split at hFound'
      · rename_i hr
        exact absurd (hq.trans hr.symm) hNe
      · rw [hOutline]
        exact h.apart base List.mem_cons_self r (hFewer r hMem') (hOther r hMem') prepared another
          hBase hFound'
    · split at hFound'
      · cases hFound'
        rw [hOutline]
        exact Ne.symm (h.apart base List.mem_cons_self q (hFewer q hMem) (hOther q hMem) prepared
          other hBase hFound)
      · exact h.apart q (hFewer q hMem) r (hFewer r hMem') hNe other another hFound hFound'

theorem safe_adopt {base : Nat} {name : Value} (hHeld : Held start (base :: active) w)
    (hNew : base ∉ active) (hActive : p ∈ active) :
    Safe start active w (adopt p base name) fun _ _ => True := by
  have hHeldFew : Held start active w := hHeld.subset fun q hMem => List.mem_cons_of_mem _ hMem
  refine Safe.bind_page hHeldFew fun prepared hBase => ?_
  obtain ⟨page, hPage⟩ := hHeldFew.found p hActive
  obtain ⟨hLaid, -⟩ := hHeldFew.pages p page hPage
  obtain ⟨hPrepared, -⟩ := hHeldFew.pages base prepared hBase
  have hVars : CleanBindings
      (Table.merge prepared.vars (page.vars.filter fun entry => entry.1 == entry.1)) :=
    hPrepared.vars.merge fun entry hMem => hLaid.vars entry (List.mem_filter.mp hMem).1
  refine Safe.bind (?_ : Safe start active w _ fun _ _ => True) fun _ w' hHeld' _ _ => ?_
  · refine ends_modify ⟨?_, since_of_modify rfl hPage rfl ?_, trivial⟩
    · refine hHeld.adopted hNew hBase rfl (getElem?_modify_page _ hPage) rfl
        ⟨hLaid.context, hVars, fun capture hMem => ?_⟩ rfl fun hMarked => ?_
      · obtain rfl := List.mem_singleton.mp hMem
        exact captureLaid_empty _
      · simp [hMarked]
    · intro hMarked
      simp [hMarked]
  · exact safe_onDraft hHeld' hActive (keepsLaid_markExtended _)

/-- A page may extend another one: it is marked afterwards if the other one is. -/
theorem safe_extend {name : Value} (hPrepare : PreparesSafely start prepare)
    (hHeld : Held start active w) (hActive : p ∈ active) :
    Safe start active w (extend prepare p name) fun _ _ => True := by
  refine Safe.bind_page hHeld fun page hPage => ?_
  obtain ⟨hLaid, -⟩ := hHeld.pages p page hPage
  refine Safe.bind_gives hHeld (gives_locate _ _ _) fun place _ => ?_
  split
  · exact Safe.bind_check hHeld fun fault _ => safe_throw hHeld
  · refine Safe.bind (safe_newPage hHeld hLaid.vars hLaid.context) ?_
    intro base w₁ _ _ hAll
    obtain ⟨hHeld₁, hNew, other, hOther, -⟩ := hAll
    have hBase : base ∈ base :: active := List.mem_cons_self
    obtain ⟨hFresh, -⟩ := hHeld₁.pages base other hOther
    have hPrepared : Safe start (base :: active) w₁ (do
        updatePage base fun other => { other with mode := page.mode }
        prepare base) fun _ _ => True := by
      refine Safe.bind (safe_updatePage hHeld₁ hBase hOther
        ⟨hFresh.context, hFresh.vars, hFresh.captures⟩ rfl rfl id) fun _ w₂ hHeld₂ _ _ => ?_
      exact hPrepare _ base w₂ hBase hHeld₂
    have hFewer : ∀ q ∈ active, q ∈ base :: active := fun q hMem => List.mem_cons_of_mem _ hMem
    have hWhole := Safe.bind (f := fun _ => adopt p base name) (hPrepared.shrink hFewer)
      fun _ w₂ _ _ hHeld₂ => safe_adopt hHeld₂.1 hNew hActive
    rwa [bind_assoc] at hWhole

end Nesting

end PageBlocks.Deferral
