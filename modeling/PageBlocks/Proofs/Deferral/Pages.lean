import PageBlocks.Proofs.Bodies
import PageBlocks.Proofs.Deferral.Drafts

/-!
# Pages that keep track of their tags

What holds of all pages of a site while one of them is prepared. The texts of every page are laid
out, with tags at most where the page is marked as emitting deferred fragments. That is also so for
the outline of a page, as long as the page is active: it is being prepared, or waits for a page that
it includes or extends. Active pages have outlines of their own, since a page that another one
extends hands its outline over and is not active any more (`Held`). A page that is marked stays so
(`Since`), and a step is safe if it keeps all this up, on faults too (`Safe`).
-/

set_option autoImplicit false

namespace PageBlocks.Deferral

open PageBlocks.Cache PageBlocks.Running PageBlocks.Site

/-! ## Invariants -/

/-- A page with the settings of a site and with texts that are laid out as its mark says. -/
structure PageLaid (settings : Context) (page : Page) : Prop where
  context : page.context = { settings with locator := page.context.locator }
  vars : CleanBindings page.vars
  captures : ∀ capture ∈ page.captures, CaptureLaid page.deferred capture

/-- The pages of a site keep track of their tags; some of them are active. The settings and the
files are those of the site where the run started. -/
structure Held (start : World) (active : List Nat) (w : World) : Prop where
  files : w.files = start.files
  pages : ∀ (p : Nat) (page : Page), w.pages[p]? = some page →
    PageLaid start.settings page ∧ page.outline < w.outlines.size
  outlines : ∀ (n : Nat) (o : Outline), w.outlines[n]? = some o → OutlineLaid true o
  found : ∀ p ∈ active, ∃ page, w.pages[p]? = some page
  own : ∀ p ∈ active, ∀ (page : Page) (o : Outline), w.pages[p]? = some page →
    w.outlines[page.outline]? = some o →
    OutlineLaid page.deferred o
  apart : ∀ p ∈ active, ∀ q ∈ active, p ≠ q → ∀ (page other : Page), w.pages[p]? = some page →
    w.pages[q]? = some other → page.outline ≠ other.outline

/-- The world after a part of a run: what preparing pages does not touch is as before, and every
page is still there and is marked if it was. -/
structure Since (w w' : World) : Prop where
  files : w'.files = w.files
  vault : w'.vault = w.vault
  responses : w'.responses = w.responses
  settings : w'.settings = w.settings
  globals : w'.globals = w.globals
  pages : ∀ (p : Nat) (page : Page), w.pages[p]? = some page → ∃ page', w'.pages[p]? = some page'
    ∧ page'.id = page.id ∧ (page.deferred = true → page'.deferred = true)

/-- Whether the texts of a page may have tags. -/
def mayTag (w : World) (p : Nat) : Bool :=
  match w.pages[p]? with
  | some page => page.deferred
  | none => true

namespace Since

variable {w w' w'' : World}

theorem refl (w : World) : Since w w :=
  ⟨rfl, rfl, rfl, rfl, rfl, fun _ page h => ⟨page, h, rfl, id⟩⟩

theorem trans (h : Since w w') (h' : Since w' w'') : Since w w'' := by
  refine ⟨h'.files.trans h.files, h'.vault.trans h.vault, h'.responses.trans h.responses,
    h'.settings.trans h.settings, h'.globals.trans h.globals, fun p page hPage => ?_⟩
  obtain ⟨page', hPage', hId, hMark⟩ := h.pages p page hPage
  obtain ⟨page'', hPage'', hId', hMark'⟩ := h'.pages p page' hPage'
  exact ⟨page'', hPage'', hId'.trans hId, fun hMarked => hMark' (hMark hMarked)⟩

/-- A page that may have tags still may. -/
theorem mayTag_mono (h : Since w w') {p : Nat} (hFound : ∃ page, w.pages[p]? = some page)
    (hTag : mayTag w p = true) : mayTag w' p = true := by
  obtain ⟨page, hPage⟩ := hFound
  obtain ⟨page', hPage', -, hMark⟩ := h.pages p page hPage
  simp only [mayTag, hPage] at hTag
  simp only [mayTag, hPage']
  exact hMark hTag

end Since

theorem mayTag_eq {w : World} {p : Nat} {page : Page} (h : w.pages[p]? = some page) :
    mayTag w p = page.deferred := by
  simp only [mayTag, h]

namespace Held

variable {start w w' : World} {active : List Nat} {p : Nat} {page page' : Page}

theorem subset {fewer : List Nat} (h : Held start active w) (hSub : ∀ q ∈ fewer, q ∈ active) :
    Held start fewer w :=
  ⟨h.files, h.pages, h.outlines, fun q hMem => h.found q (hSub q hMem),
    fun q hMem => h.own q (hSub q hMem),
    fun q hMem r hMem' => h.apart q (hSub q hMem) r (hSub r hMem')⟩

theorem inactive (h : Held start active w) : Held start [] w :=
  h.subset fun _ hMem => absurd hMem List.not_mem_nil

/-- An active page and its outline were replaced, and nothing else was. -/
theorem replaced (h : Held start active w) (hActive : p ∈ active)
    (hPage : w.pages[p]? = some page) (hFiles : w'.files = w.files)
    (hPages : ∀ q, w'.pages[q]? = if q = p then some page' else w.pages[q]?)
    (hSize : w'.outlines.size = w.outlines.size)
    (hOthers : ∀ n, n ≠ page.outline → w'.outlines[n]? = w.outlines[n]?)
    (hOwn : ∀ o, w'.outlines[page.outline]? = some o → OutlineLaid page'.deferred o)
    (hLaid : PageLaid start.settings page') (hOutline : page'.outline = page.outline) :
    Held start active w' := by
  have hBound := (h.pages p page hPage).2
  refine ⟨hFiles.trans h.files, ?_, ?_, ?_, ?_, ?_⟩
  · intro q other hOther
    rw [hPages] at hOther
    rw [hSize]
    split at hOther
    · cases hOther
      exact ⟨hLaid, hOutline ▸ hBound⟩
    · exact h.pages q other hOther
  · intro n o hFound
    by_cases hn : n = page.outline
    · subst hn
      exact (hOwn o hFound).mono fun _ => rfl
    · exact h.outlines n o (hOthers n hn ▸ hFound)
  · intro q hMem
    rw [hPages]
    split
    · exact ⟨page', rfl⟩
    · exact h.found q hMem
  · intro q hMem other o hOther hFound
    rw [hPages] at hOther
    split at hOther
    · cases hOther
      rw [hOutline] at hFound
      exact hOwn o hFound
    · rename_i hNe
      have hApart := h.apart q hMem p hActive hNe other page hOther hPage
      exact h.own q hMem other o hOther (hOthers _ hApart ▸ hFound)
  · intro q hMem r hMem' hNe other another hOther hAnother
    rw [hPages] at hOther hAnother
    split at hOther
    · rename_i hq
      cases hOther
      split at hAnother
      · rename_i hr
        exact absurd (hq.trans hr.symm) hNe
      · rename_i hr
        rw [hOutline]
        exact h.apart p hActive r hMem' (Ne.symm hr) page another hPage hAnother
    · rename_i hq
      split at hAnother
      · cases hAnother
        rw [hOutline]
        exact h.apart q hMem p hActive hq other page hOther hPage
      · exact h.apart q hMem r hMem' hNe other another hOther hAnother

end Held

/-! ## Safe steps -/

/-- A step keeps the invariant of the active pages if it goes well, and that of the other pages in
any case. -/
def Safe {α : Type} (start : World) (active : List Nat) (w : World) (x : SiteM α)
    (post : α → World → Prop) : Prop :=
  Ends x w (fun a w' => Held start active w' ∧ Since w w' ∧ post a w')
    (fun w' => Held start [] w' ∧ Since w w')

section Safe

variable {α β : Type} {start w : World} {active : List Nat} {post : α → World → Prop}

theorem Safe.mono {x : SiteM α} {post' : α → World → Prop} (h : Safe start active w x post)
    (hPost : ∀ a w', Held start active w' → Since w w' → post a w' → post' a w') :
    Safe start active w x post' :=
  Ends.mono h (fun a w' hEnd => ⟨hEnd.1, hEnd.2.1, hPost a w' hEnd.1 hEnd.2.1 hEnd.2.2⟩)
    fun _ hEnd => hEnd

theorem Safe.bind {x : SiteM α} {f : α → SiteM β} {mid : α → World → Prop}
    {post : β → World → Prop} (h : Safe start active w x mid)
    (hNext : ∀ a w', Held start active w' → Since w w' → mid a w' →
      Safe start active w' (f a) post) : Safe start active w (x >>= f) post := by
  refine Ends.bind h fun a w' hMid => ?_
  obtain ⟨hHeld, hSince, hMid⟩ := hMid
  refine Ends.mono (hNext a w' hHeld hSince hMid) ?_ ?_
  · exact fun b w'' hEnd => ⟨hEnd.1, hSince.trans hEnd.2.1, hEnd.2.2⟩
  · exact fun w'' hEnd => ⟨hEnd.1, hSince.trans hEnd.2⟩

theorem Safe.map {x : SiteM α} {f : α → β} {post : β → World → Prop}
    (h : Safe start active w x fun a w' => post (f a) w') :
    Safe start active w (f <$> x) post :=
  Ends.map h

theorem safe_pure {a : α} (hHeld : Held start active w) (h : post a w) :
    Safe start active w (pure a) post :=
  ends_pure ⟨hHeld, Since.refl w, h⟩

theorem safe_throw {fault : Fault} (hHeld : Held start active w) :
    Safe start active w (throw fault : SiteM α) post :=
  ends_throw ⟨hHeld.inactive, Since.refl w⟩

theorem Safe.bind_run {x : SiteM α} {f : α → SiteM β} {a : α} {post : β → World → Prop}
    (hRun : x.run w = (.ok a, w)) (h : Safe start active w (f a) post) :
    Safe start active w (x >>= f) post :=
  ends_bind_of_run hRun h

theorem Safe.bind_get {f : World → SiteM β} {post : β → World → Prop}
    (h : Safe start active w (f w) post) : Safe start active w (get >>= f) post :=
  Safe.bind_run (run_get w) h

end Safe

/-! ## Steps that change nothing -/

/-- A step leaves the site as it is, and has a result of some kind if it goes well. -/
def Gives {α : Type} (w : World) (x : SiteM α) (post : α → Prop) : Prop :=
  Ends x w (fun a w' => post a ∧ w' = w) (· = w)

section Gives

variable {α β : Type} {start w : World} {active : List Nat} {mid : α → Prop}

theorem gives_pure {a : α} (h : mid a) : Gives w (pure a) mid := ends_pure ⟨h, rfl⟩

theorem gives_throw (fault : Fault) : Gives w (throw fault : SiteM α) mid := ends_throw rfl

theorem Gives.bind {x : SiteM α} {f : α → SiteM β} {post : β → Prop} (h : Gives w x mid)
    (hNext : ∀ a, mid a → Gives w (f a) post) : Gives w (x >>= f) post := by
  refine Ends.bind h fun a w' hMid => ?_
  obtain ⟨hResult, rfl⟩ := hMid
  exact hNext a hResult

theorem Gives.safe {x : SiteM α} (h : Gives w x mid) (hHeld : Held start active w) :
    Safe start active w x fun a w' => mid a ∧ w' = w := by
  refine Ends.mono h (fun a w' hEnd => ?_) fun w' hEnd => ?_
  · obtain ⟨hResult, rfl⟩ := hEnd
    exact ⟨hHeld, Since.refl w', hResult, rfl⟩
  · subst hEnd
    exact ⟨hHeld.inactive, Since.refl w'⟩

theorem Safe.bind_gives {x : SiteM α} {f : α → SiteM β} {post : β → World → Prop}
    (hHeld : Held start active w)
    (h : Gives w x mid) (hNext : ∀ a, mid a → Safe start active w (f a) post) :
    Safe start active w (x >>= f) post := by
  refine Safe.bind (h.safe hHeld) fun a w' _ _ hMid => ?_
  obtain ⟨hResult, rfl⟩ := hMid
  exact hNext a hResult

theorem gives_check (x : Except Fault α) : Gives w (check x) fun a => x = .ok a := by
  cases x with
  | ok a => exact gives_pure rfl
  | error fault => exact gives_throw fault

theorem gives_page (w : World) (p : Nat) :
    Gives w (page p) fun page => w.pages[p]? = some page := by
  unfold Site.page
  refine ends_get_bind ?_
  cases hPage : w.pages[p]? with
  | some page => exact gives_pure rfl
  | none => exact gives_throw _

theorem Safe.bind_check {x : Except Fault α} {f : α → SiteM β} {post : β → World → Prop}
    (hHeld : Held start active w) (h : ∀ a, x = .ok a → Safe start active w (f a) post) :
    Safe start active w (check x >>= f) post :=
  Safe.bind_gives hHeld (gives_check x) h

theorem Safe.bind_page {p : Nat} {f : Page → SiteM β} {post : β → World → Prop}
    (hHeld : Held start active w)
    (h : ∀ page, w.pages[p]? = some page → Safe start active w (f page) post) :
    Safe start active w (page p >>= f) post :=
  Safe.bind_gives hHeld (gives_page w p) h

end Gives

/-! ## Single pages -/

section Page

variable {start w : World} {active : List Nat} {p : Nat} {page : Page}

/-- The world after pages and outlines were changed is one after the first if no page loses its
identity or its mark. -/
theorem since_of_modify {f : Page → Page} {pages : Array Page} {outlines : Array Outline}
    {executed : Nat} (hPages : pages = w.pages.modify p f)
    (hPage : w.pages[p]? = some page) (hId : (f page).id = page.id)
    (hMark : page.deferred = true → (f page).deferred = true) :
    Since w { w with pages, outlines, executed } := by
  refine ⟨rfl, rfl, rfl, rfl, rfl, fun q other hOther => ?_⟩
  subst hPages
  by_cases hq : p = q
  · subst hq
    rw [hPage] at hOther
    cases hOther
    exact ⟨f page, by simp [Array.getElem?_modify, hPage], hId, hMark⟩
  · exact ⟨other, by simp [Array.getElem?_modify, hq, hOther], rfl, id⟩

theorem getElem?_modify_page (f : Page → Page) (hPage : w.pages[p]? = some page) (q : Nat) :
    (w.pages.modify p f)[q]? = if q = p then some (f page) else w.pages[q]? := by
  by_cases hq : q = p
  · subst hq
    simp [Array.getElem?_modify, hPage]
  · simp [Array.getElem?_modify, Ne.symm hq, hq]

/-- An active page may be replaced by one whose texts are laid out as its mark says. -/
theorem safe_updatePage {f : Page → Page} (hHeld : Held start active w) (hActive : p ∈ active)
    (hPage : w.pages[p]? = some page) (hLaid : PageLaid start.settings (f page))
    (hOutline : (f page).outline = page.outline) (hId : (f page).id = page.id)
    (hMark : page.deferred = true → (f page).deferred = true) :
    Safe start active w (updatePage p f) fun _ w' => w'.pages[p]? = some (f page) := by
  have hPages := getElem?_modify_page f hPage
  refine ends_modify ⟨?_, ?_, ?_⟩
  · refine hHeld.replaced hActive hPage rfl hPages rfl (fun _ _ => rfl) (fun o hFound => ?_) hLaid
      hOutline
    exact (hHeld.own p hActive page o hPage hFound).mono hMark
  · exact since_of_modify rfl hPage hId hMark
  · exact (hPages p).trans (if_pos rfl)

/-- A step of the draft of an active page is safe if it keeps all texts laid out. -/
theorem safe_onDraft {α : Type} {x : DraftM α} (hHeld : Held start active w)
    (hActive : p ∈ active) (hKeeps : KeepsLaid (mayTag w p) x) :
    Safe start active w (onDraft p x) fun _ _ => True := by
  refine Safe.bind_page hHeld fun page hPage => ?_
  rw [mayTag_eq hPage] at hKeeps
  obtain ⟨hLaid, hBound⟩ := hHeld.pages p page hPage
  have hOutline : w.outlines[page.outline]? = some w.outlines[page.outline] :=
    Array.getElem?_eq_getElem hBound
  refine Safe.bind_run (run_outlineOf hPage hOutline) ?_
  -- whether the step goes well or not, its draft is laid out
  have hDraft : DraftLaid page.deferred (draftOf page w.outlines[page.outline]) :=
    ⟨hHeld.own p hActive page _ hPage hOutline, hLaid.captures⟩
  rcases hRun : x.run (draftOf page w.outlines[page.outline]) with ⟨result, d⟩
  have hAfter : DraftLaid page.deferred d := by
    have hEnds := hKeeps _ hDraft
    cases result with
    | ok a => exact hEnds.of_run hRun
    | error fault => exact hEnds.of_run_error hRun
  have hPages := getElem?_modify_page
    (fun page => { page with stack := d.stack, captures := d.captures }) hPage
  have hSince : Since w
      { w with
        pages := w.pages.modify p fun page =>
          { page with stack := d.stack, captures := d.captures }
        outlines := w.outlines.modify page.outline fun _ => d.outline } :=
    since_of_modify rfl hPage rfl id
  have hHeldAfter : Held start active
      { w with
        pages := w.pages.modify p fun page =>
          { page with stack := d.stack, captures := d.captures }
        outlines := w.outlines.modify page.outline fun _ => d.outline } := by
    refine hHeld.replaced hActive hPage rfl hPages (by simp) (fun n hn => ?_) (fun o hFound => ?_)
      ⟨hLaid.context, hLaid.vars, hAfter.captures⟩ rfl
    · simp [Array.getElem?_modify, Ne.symm hn]
    · simp only [Array.getElem?_modify, if_true, hOutline, Option.map_some,
        Option.some.injEq] at hFound
      exact hFound ▸ hAfter.outline
  refine ends_modify_bind ?_
  cases result with
  | ok a => exact ends_of_run (run_check rfl _) ⟨hHeldAfter, hSince, trivial⟩
  | error fault => exact ends_of_run_error (run_check_error rfl _) ⟨hHeldAfter.inactive, hSince⟩

/-- A new page has no texts yet, so it may become active. -/
theorem safe_newPage {place : Place} {vars : Bindings} {context : Context} {chain : List Place}
    (hHeld : Held start active w) (hVars : CleanBindings vars)
    (hContext : context = { start.settings with locator := context.locator }) :
    Safe start active w (newPage place vars context chain) fun p w' =>
      Held start (p :: active) w' ∧ p ∉ active ∧ ∃ page, w'.pages[p]? = some page
        ∧ page.deferred = false ∧ page.context = context
        ∧ Identity.page (Path.absolute place).print vars = .ok page.id := by
  unfold newPage
  cases hId : Identity.page (Path.absolute place).print vars with
  | error fault =>
    exact ends_bind_of_run_error (run_check_error rfl w) ⟨hHeld.inactive, Since.refl w⟩
  | ok id =>
    refine ends_bind_of_run (run_check rfl w) (ends_get_bind (ends_set_bind (ends_pure ?_)))
    have hOld : ∀ q page, w.pages[q]? = some page → q < w.pages.size :=
      fun q page hFound => (Array.getElem?_eq_some_iff.mp hFound).1
    have hActiveOld : ∀ q ∈ active, q < w.pages.size := by
      intro q hMem
      obtain ⟨page, hFound⟩ := hHeld.found q hMem
      exact hOld q page hFound
    have hLess : ∀ (q : Nat) (page : Page), w.pages[q]? = some page →
        page.outline < w.outlines.size :=
      fun q page hFound => (hHeld.pages q page hFound).2
    have hNext : Held start (w.pages.size :: active)
        { w with
          pages := w.pages.push { place, vars, context, id, chain, outline := w.outlines.size }
          outlines := w.outlines.push (Outline.start id) } := by
      refine ⟨hHeld.files, ?_, ?_, ?_, ?_, ?_⟩
      · intro q page hFound
        rw [Array.getElem?_push] at hFound
        rw [Array.size_push]
        split at hFound
        · cases hFound
          refine ⟨⟨hContext, hVars, ?_⟩, Nat.lt_succ_self _⟩
          intro capture hMem
          rw [List.mem_singleton] at hMem
          subst hMem
          exact captureLaid_empty _
        · obtain ⟨hLaid, hBound⟩ := hHeld.pages q page hFound
          exact ⟨hLaid, Nat.lt_succ_of_lt hBound⟩
      · intro n o hFound
        rw [Array.getElem?_push] at hFound
        split at hFound
        · cases hFound
          exact outlineLaid_start true id
        · exact hHeld.outlines n o hFound
      · intro q hMem
        rw [Array.getElem?_push]
        split
        · exact ⟨_, rfl⟩
        · rename_i hOther
          exact hHeld.found q ((List.mem_cons.mp hMem).resolve_left hOther)
      · intro q hMem page o hFound hOutline
        rw [Array.getElem?_push] at hFound hOutline
        split at hFound
        · cases hFound
          rw [if_pos rfl] at hOutline
          cases hOutline
          exact outlineLaid_start _ id
        · rename_i hOther
          rw [if_neg (Nat.ne_of_lt (hLess q page hFound))] at hOutline
          exact hHeld.own q ((List.mem_cons.mp hMem).resolve_left hOther) page o hFound hOutline
      · intro q hMem r hMem' hNe page other hFound hFound'
        rw [Array.getElem?_push] at hFound hFound'
        split at hFound
        · rename_i hq
          cases hFound
          rw [if_neg (fun hr => hNe (hq.trans hr.symm))] at hFound'
          exact Nat.ne_of_gt (hLess r other hFound')
        · rename_i hq
          split at hFound'
          · cases hFound'
            exact Nat.ne_of_lt (hLess q page hFound)
          · rename_i hr
            exact hHeld.apart q ((List.mem_cons.mp hMem).resolve_left hq) r
              ((List.mem_cons.mp hMem').resolve_left hr) hNe page other hFound hFound'
    refine ⟨hNext.subset fun _ hMem => List.mem_cons_of_mem _ hMem,
      ⟨rfl, rfl, rfl, rfl, rfl, ?_⟩, hNext, ?_, ?_⟩
    · intro q page hFound
      refine ⟨page, ?_, rfl, fun hMarked => hMarked⟩
      rw [Array.getElem?_push, if_neg (Nat.ne_of_lt (hOld q page hFound))]
      exact hFound
    · exact fun hMem => Nat.lt_irrefl _ (hActiveOld _ hMem)
    · exact ⟨_, Array.getElem?_push_size, rfl, rfl, rfl⟩

end Page

end PageBlocks.Deferral
