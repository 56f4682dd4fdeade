import PageBlocks.Proofs.Bodies
import PageBlocks.Proofs.Transparency.Drafts

/-!
# Pages behind other pages

What pages do does not depend on how many pages were made before them. A site is compared with the
same site behind further pages (`Near`): every page has another number there, and perhaps another
cache, which preparing pages does not use. Making pages, including and extending them is in step on
the two sites, given that preparing other pages is (`inStep_includePage`, `inStep_extend`).
-/

set_option autoImplicit false

namespace PageBlocks

open PageBlocks.Cache

/-- A page behind `k` further pages and `e` further outlines, with another cache. -/
def Page.shift (k e : Nat) (cache : Option Ref) (page : Page) : Page :=
  { page with
    vars := page.vars.shift k
    context := { page.context with cache }
    base := page.base.map (Value.shift k)
    outline := page.outline + e }

namespace Transparency

open PageBlocks.Body PageBlocks.Running PageBlocks.Site PageBlocks.Upkeep

/-- A site on which nothing but pages was made or changed. -/
structure Still (u₀ w : World) : Prop where
  files : w.files = u₀.files
  vault : w.vault = u₀.vault
  responses : w.responses = u₀.responses
  counters : w.counters = u₀.counters
  settings : w.settings = u₀.settings
  globals : w.globals = u₀.globals

/-- A site, and the same site behind further pages. The bodies have plain literals, the pages have
the built-in directives, and their outlines no cacheable blocks. The site with the further pages
has not changed otherwise since a given moment. -/
structure Near (u₀ : World) (k e : Nat) (cache : Option Ref) (w w' : World) : Prop where
  files : w'.files = w.files
  bodies : ∀ place items, bodyAt w.files place = .ok items → Item.allKeep plain items = true
  page : ∀ p : Nat, w'.pages[p + k]? = (w.pages[p]?).map (Page.shift k e cache)
  pages : w'.pages.size = w.pages.size + k
  outline : ∀ n : Nat, w'.outlines[n + e]? = (w.outlines[n]?).map (Outline.shift k)
  outlines : w'.outlines.size = w.outlines.size + e
  directives : ∀ (p : Nat) (page : Page), w.pages[p]? = some page →
    page.context.directives = Directive.builtIn
  uncached : ∀ (n : Nat) (o : Outline), w.outlines[n]? = some o → Uncached o
  still : Still u₀ w'

theorem Still.of_pages {u₀ w : World} (h : Still u₀ w) {pages : Array Page}
    {outlines : Array Outline} {executed : Nat} :
    Still u₀ { w with pages, outlines, executed } :=
  ⟨h.files, h.vault, h.responses, h.counters, h.settings, h.globals⟩

section Pages

variable {u₀ : World} {k e : Nat} {cache : Option Ref}

theorem inStep_check_of_toOption {α β : Type} {near : World → World → Prop} {g : α → β}
    {x : Except Fault α} {y : Except Fault β} (h : y.toOption = x.toOption.map g) :
    InStep near g (check x) (check y) := by
  cases x with
  | ok a =>
    cases y with
    | ok b => exact inStep_pure (Option.some.inj h)
    | error fault => cases h
  | error fault =>
    cases y with
    | ok b => cases h
    | error fault' => exact inStep_throw fault fault'

/-- A check comes out the same on both sites. -/
theorem inStep_check_bind {α β γ : Type} {near : World → World → Prop} {g : β → γ}
    {x : Except Fault α} {f : α → SiteM β} {f' : α → SiteM γ}
    (h : ∀ a, InStep near g (f a) (f' a)) :
    InStep near g (check x >>= f) (check x >>= f') := by
  cases x with
  | ok a => exact h a
  | error fault => exact inStep_throw fault fault

/-! ## Reading pages -/

/-- A page may be used at once where it is read. -/
theorem inStep_page_bind {α β : Type} {g : α → β} {p : Nat} {f : Page → SiteM α}
    {f' : Page → SiteM β}
    (h : ∀ w w' page, Near u₀ k e cache w w' → w.pages[p]? = some page →
      Ends (f page) w
        (fun a s' => ∃ t', (f' (page.shift k e cache)).run w' = (.ok (g a), t')
          ∧ Near u₀ k e cache s' t')
        fun s' => ∃ fault t', (f' (page.shift k e cache)).run w' = (.error fault, t')
          ∧ Near u₀ k e cache s' t') :
    InStep (Near u₀ k e cache) g (page p >>= f) (page (p + k) >>= f') := by
  intro w w' hNear
  have hPage := hNear.page p
  cases hFound : w.pages[p]? with
  | none =>
    rw [hFound] at hPage
    exact ends_bind_of_run_error (run_page_error hFound)
      ⟨_, _, run_bind_of_error (run_page_error hPage) _, hNear⟩
  | some found =>
    rw [hFound] at hPage
    have hGoes : (page (p + k) >>= f').run w' = (f' (found.shift k e cache)).run w' :=
      run_bind_of_ok (run_page hPage) _
    rw [hGoes]
    exact ends_bind_of_run (run_page hFound) (h w w' found hNear hFound)

theorem inStep_page (p : Nat) :
    InStep (Near u₀ k e cache) (Page.shift k e cache) (page p) (page (p + k)) := by
  have hRead : InStep (Near u₀ k e cache) (Page.shift k e cache) (page p >>= pure)
      (page (p + k) >>= pure) :=
    inStep_page_bind fun w w' found hNear _ => ends_pure ⟨w', rfl, hNear⟩
  rwa [bind_pure, bind_pure] at hRead

/-- An outline may be used at once where it is read; it has no cacheable blocks. -/
theorem inStep_outlineOf_bind {α β : Type} {g : α → β} {p : Nat} {f : Outline → SiteM α}
    {f' : Outline → SiteM β}
    (h : ∀ o, Uncached o → InStep (Near u₀ k e cache) g (f o) (f' (o.shift k))) :
    InStep (Near u₀ k e cache) g (outlineOf p >>= f) (outlineOf (p + k) >>= f') := by
  unfold outlineOf
  rw [bind_assoc, bind_assoc]
  refine (inStep_page p).bind fun found => ?_
  rw [bind_assoc, bind_assoc]
  refine inStep_get_bind fun w w' hNear => ?_
  rw [pure_bind, pure_bind]
  have hOutline : (w'.outlines[(found.shift k e cache).outline]?).getD {}
      = ((w.outlines[found.outline]?).getD {}).shift k := by
    have hSame := hNear.outline found.outline
    have hNumber : (found.shift k e cache).outline = found.outline + e := rfl
    rw [hNumber, hSame]
    cases w.outlines[found.outline]? <;> rfl
  rw [hOutline]
  refine h _ ?_ w w' hNear
  cases hFound : w.outlines[found.outline]? with
  | none => exact uncached_empty
  | some o => exact hNear.uncached _ o hFound

theorem placeAt_shift (files : FileTree Source) (locator : Locator) (name : Value)
    (extra : List Path) :
    placeAt files locator (name.shift k) extra = placeAt files locator name extra := by
  cases name <;> rfl

theorem inStep_locate (locator : Locator) (name : Value) (extra : List Path) :
    InStep (Near u₀ k e cache) id (locate locator name extra)
      (locate locator (name.shift k) extra) := by
  intro w w' hNear
  have hRun := run_locate locator name extra w
  have hRun' := run_locate locator (name.shift k) extra w'
  rw [placeAt_shift, hNear.files] at hRun'
  cases hPlace : placeAt w.files locator name extra with
  | error fault =>
    rw [hPlace] at hRun hRun'
    exact ends_of_run_error hRun ⟨fault, w', hRun', hNear⟩
  | ok place =>
    rw [hPlace] at hRun hRun'
    exact ends_of_run hRun ⟨w', hRun', hNear⟩

/-! ## Changing pages -/

theorem getElem?_modify_shift {α β : Type} {xs : Array α} {ys : Array β} {s : α → β} {offset : Nat}
    (h : ∀ i : Nat, ys[i + offset]? = (xs[i]?).map s) (f : α → α) (f' : β → β)
    (hSame : ∀ x, f' (s x) = s (f x)) (p i : Nat) :
    (ys.modify (p + offset) f')[i + offset]? = ((xs.modify p f)[i]?).map s := by
  rw [Array.getElem?_modify, Array.getElem?_modify, h]
  by_cases hHere : p = i
  · subst hHere
    rw [if_pos rfl, if_pos rfl, Option.map_map, Option.map_map]
    exact congrArg (fun t => Option.map t _) (funext hSame)
  · have hThere : p + offset ≠ i + offset := by omega
    rw [if_neg hThere, if_neg hHere]

/-- Pages and outlines were replaced alike on both sites. -/
theorem Near.modify {w w' : World} (hNear : Near u₀ k e cache w w') {f f' : Page → Page}
    (hSame : ∀ page, f' (page.shift k e cache) = (f page).shift k e cache)
    (hContext : ∀ page, (f page).context = page.context) {o : Outline} (hUncached : Uncached o)
    (p n : Nat) :
    Near u₀ k e cache
      { w with pages := w.pages.modify p f, outlines := w.outlines.modify n fun _ => o }
      { w' with
        pages := w'.pages.modify (p + k) f'
        outlines := w'.outlines.modify (n + e) fun _ => o.shift k } where
  files := hNear.files
  bodies := hNear.bodies
  page := getElem?_modify_shift hNear.page f f' hSame p
  pages := by
    show (w'.pages.modify (p + k) f').size = (w.pages.modify p f).size + k
    rw [Array.size_modify, Array.size_modify]
    exact hNear.pages
  outline := getElem?_modify_shift hNear.outline (fun _ => o) (fun _ => o.shift k) (fun _ => rfl) n
  outlines := by
    show (w'.outlines.modify (n + e) fun _ => o.shift k).size
      = (w.outlines.modify n fun _ => o).size + e
    rw [Array.size_modify, Array.size_modify]
    exact hNear.outlines
  directives := by
    intro q page hPage
    rw [Array.getElem?_modify] at hPage
    split at hPage
    · obtain ⟨old, hOld, rfl⟩ := Option.map_eq_some_iff.mp hPage
      rw [hContext]
      exact hNear.directives q old hOld
    · exact hNear.directives q page hPage
  uncached := by
    intro m other hOther
    rw [Array.getElem?_modify] at hOther
    split at hOther
    · obtain ⟨old, -, rfl⟩ := Option.map_eq_some_iff.mp hOther
      exact hUncached
    · exact hNear.uncached m other hOther
  still := hNear.still.of_pages

theorem inStep_updatePage {f f' : Page → Page}
    (hSame : ∀ page, f' (page.shift k e cache) = (f page).shift k e cache)
    (hContext : ∀ page, (f page).context = page.context) (p : Nat) :
    InStep (Near u₀ k e cache) id (updatePage p f) (updatePage (p + k) f') := by
  refine inStep_modify fun w w' hNear => ?_
  refine ⟨hNear.files, hNear.bodies, getElem?_modify_shift hNear.page f f' hSame p, ?_,
    hNear.outline,
    hNear.outlines, ?_, hNear.uncached, hNear.still.of_pages⟩
  · show (w'.pages.modify (p + k) f').size = (w.pages.modify p f).size + k
    rw [Array.size_modify, Array.size_modify]
    exact hNear.pages
  · intro q page hPage
    rw [Array.getElem?_modify] at hPage
    split at hPage
    · obtain ⟨old, hOld, rfl⟩ := Option.map_eq_some_iff.mp hPage
      rw [hContext]
      exact hNear.directives q old hOld
    · exact hNear.directives q page hPage

/-- A step of a page's draft. -/
theorem inStep_onDraft {α β : Type} {g : α → β} {x : DraftM α} {y : DraftM β}
    (hStep : InStep (NearDraft k) g x y) (hKeeps : Draft.Keeps Uncached x) (p : Nat) :
    InStep (Near u₀ k e cache) g (onDraft p x) (onDraft (p + k) y) := by
  unfold onDraft
  refine inStep_page_bind fun w w' page hNear _ => ?_
  refine inStep_outlineOf_bind (fun o hUncached => ?_) w w' hNear
  have hEnds := hStep (draftOf page o) (draftOf (page.shift k e cache) (o.shift k)) rfl
  have hKept := hKeeps (draftOf page o) hUncached
  rcases hRun : x.run (draftOf page o) with ⟨fault | a, d⟩
  · obtain ⟨fault', d', hRun', hNearDraft⟩ := hEnds.of_run_error hRun
    subst hNearDraft
    rw [hRun']
    refine InStep.bind (g := id) (inStep_modify fun w w' hNear => ?_) fun _ => inStep_throw _ _
    refine hNear.modify ?_ ?_ (hKept.of_run_error hRun) p page.outline
    · exact fun _ => rfl
    · exact fun _ => rfl
  · obtain ⟨d', hRun', hNearDraft⟩ := hEnds.of_run hRun
    subst hNearDraft
    rw [hRun']
    refine InStep.bind (g := id) (inStep_modify fun w w' hNear => ?_) fun _ => inStep_pure rfl
    refine hNear.modify ?_ ?_ (hKept.of_run hRun) p page.outline
    · exact fun _ => rfl
    · exact fun _ => rfl

/-! ## New pages -/

/-- Both sites got one more page. -/
theorem Near.push {w w' : World} (hNear : Near u₀ k e cache w w') {page page' : Page}
    (hPage : page' = page.shift k e cache)
    (hDirectives : page.context.directives = Directive.builtIn)
    (owner : String) :
    Near u₀ k e cache
      { w with pages := w.pages.push page, outlines := w.outlines.push (Outline.start owner) }
      { w' with
        pages := w'.pages.push page', outlines := w'.outlines.push (Outline.start owner) } where
  files := hNear.files
  bodies := hNear.bodies
  page p := by
    show (w'.pages.push page')[p + k]? = ((w.pages.push page)[p]?).map _
    rw [Array.getElem?_push, Array.getElem?_push, hNear.pages, hNear.page, hPage]
    by_cases hLast : p = w.pages.size
    · rw [if_pos hLast, if_pos (by omega)]
      rfl
    · rw [if_neg hLast, if_neg (by omega)]
  pages := by
    show (w'.pages.push page').size = (w.pages.push page).size + k
    rw [Array.size_push, Array.size_push, hNear.pages]
    omega
  outline n := by
    show (w'.outlines.push _)[n + e]? = ((w.outlines.push _)[n]?).map _
    rw [Array.getElem?_push, Array.getElem?_push, hNear.outlines, hNear.outline]
    by_cases hLast : n = w.outlines.size
    · rw [if_pos hLast, if_pos (by omega)]
      rfl
    · rw [if_neg hLast, if_neg (by omega)]
  outlines := by
    show (w'.outlines.push _).size = (w.outlines.push _).size + e
    rw [Array.size_push, Array.size_push, hNear.outlines]
    omega
  directives := by
    intro q other hOther
    rw [Array.getElem?_push] at hOther
    split at hOther
    · cases hOther
      exact hDirectives
    · exact hNear.directives q other hOther
  uncached := by
    intro n o hOutline
    rw [Array.getElem?_push] at hOutline
    split at hOutline
    · cases hOutline
      exact uncached_start owner
    · exact hNear.uncached n o hOutline
  still := hNear.still.of_pages

theorem inStep_newPage {context : Context} (hDirectives : context.directives = Directive.builtIn)
    (place : Place) (vars : Bindings) (chain : List Place) :
    InStep (Near u₀ k e cache) (· + k) (newPage place vars context chain)
      (newPage place (vars.shift k) { context with cache } chain) := by
  unfold newPage
  rw [page_shift]
  refine inStep_check_bind fun id => inStep_get_bind fun w w' hNear => ?_
  have hSet : ∀ (t u : World) (n : Nat), (do set t; return n : SiteM Nat).run u = (.ok n, t) :=
    fun _ _ _ => rfl
  refine ends_set_bind (ends_pure ⟨_, (hSet _ _ _).trans
    (congrArg (fun n => (Except.ok n, _)) hNear.pages), hNear.push ?_ hDirectives id⟩)
  rw [hNear.outlines]
  rfl

theorem inStep_relatedPage (p : Nat) (name vars : Value) :
    InStep (Near u₀ k e cache) (· + k) (relatedPage p name vars)
      (relatedPage (p + k) (name.shift k) (vars.shift k)) := by
  unfold relatedPage
  refine inStep_page_bind fun w w' page hNear hPage => ?_
  have hRest : InStep (Near u₀ k e cache) (· + k) (do
      let place ← locateFrom page name
      let more ← check (Bindings.ofMap vars)
      newPage place (Table.merge page.vars more) page.context []) (do
      let place ← locateFrom (page.shift k e cache) (name.shift k)
      let more ← check (Bindings.ofMap (vars.shift k))
      newPage place (Table.merge (page.shift k e cache).vars more)
        (page.shift k e cache).context []) := by
    refine (inStep_locate _ _ _).bind fun place => ?_
    refine (inStep_check (ofMap_shift k vars)).bind fun more => ?_
    have hVars : (page.shift k e cache).vars = page.vars.shift k := rfl
    rw [hVars, merge_shift]
    exact inStep_newPage (hNear.directives p page hPage) place _ []
  exact hRest w w' hNear

theorem inStep_track (p : Nat) (text : String) :
    InStep (Near u₀ k e cache) id (track p text) (track (p + k) text) := by
  unfold track
  split
  · refine InStep.bind (g := id) (inStep_updatePage ?_ ?_ p) fun _ => inStep_pure rfl
    · exact fun _ => rfl
    · exact fun _ => rfl
  · exact inStep_pure rfl

/-! ## Rendering, including and extending -/

theorem inStep_renderBlock (p i : Nat) :
    InStep (Near u₀ k e cache) id (renderBlock p i) (renderBlock (p + k) i) := by
  unfold renderBlock
  refine (inStep_page p).bind fun page => inStep_outlineOf_bind fun o hUncached => ?_
  rw [render_shift k hUncached (memoOf page)]
  obtain ⟨result, hRun⟩ := exists_run_render hUncached (memoOf page) i
  unfold onVault
  refine inStep_get_bind fun w w' hNear => ?_
  rw [hRun, hRun]
  cases result with
  | ok text => exact ends_set_bind (ends_pure ⟨_, rfl, hNear⟩)
  | error fault => exact ends_set_bind (ends_throw ⟨fault, _, rfl, hNear⟩)

variable {prepare prepare' : Nat → SiteM Unit}

theorem inStep_renderPage
    (hPrepare : ∀ p, InStep (Near u₀ k e cache) id (prepare p) (prepare' (p + k)))
    (p : Nat) :
    InStep (Near u₀ k e cache) id (renderPage prepare p) (renderPage prepare' (p + k)) :=
  (hPrepare p).bind fun _ => inStep_renderBlock p Outline.root

theorem inStep_includePage
    (hPrepare : ∀ p, InStep (Near u₀ k e cache) id (prepare p) (prepare' (p + k))) (p : Nat)
    (name vars : Value) :
    InStep (Near u₀ k e cache) id (includePage prepare p name vars)
      (includePage prepare' (p + k) (name.shift k) (vars.shift k)) := by
  unfold includePage
  refine (inStep_relatedPage p name vars).bind fun other => ?_
  exact (inStep_renderPage hPrepare other).bind fun text => inStep_track p text

theorem filter_shift (vars : Bindings) :
    (vars.shift k).filter (fun entry => entry.1 == entry.1)
      = Bindings.shift k (vars.filter fun entry => entry.1 == entry.1) := by
  unfold Bindings.shift
  rw [List.filter_map]
  refine congrArg (List.map _) (List.filter_congr fun entry _ => ?_)
  exact beq_shift k entry.1 entry.1

theorem inStep_adopt (p base : Nat) (name : Value) :
    InStep (Near u₀ k e cache) id (adopt p base name)
      (adopt (p + k) (base + k) (name.shift k)) := by
  unfold adopt
  refine (inStep_page base).bind fun prepared => ?_
  refine InStep.bind (g := id) (inStep_updatePage ?_ ?_ p) fun _ => ?_
  · intro page
    have hVars : Table.merge (prepared.shift k e cache).vars
        ((page.shift k e cache).vars.filter fun entry => entry.1 == entry.1)
        = Bindings.shift k (Table.merge prepared.vars
          (page.vars.filter fun entry => entry.1 == entry.1)) := by
      rw [← merge_shift, ← filter_shift]
      rfl
    rw [hVars]
    rfl
  · exact fun _ => rfl
  · exact inStep_onDraft (inStep_markExtended _) (lasting_uncached.markExtended _) p

theorem inStep_extend (hPrepare : ∀ p, InStep (Near u₀ k e cache) id (prepare p) (prepare' (p + k)))
    (p : Nat) (name : Value) :
    InStep (Near u₀ k e cache) id (extend prepare p name)
      (extend prepare' (p + k) (name.shift k)) := by
  unfold extend
  refine inStep_page_bind fun w w' page hNear hPage => ?_
  have hRest : InStep (Near u₀ k e cache) id (do
      let chain := page.chain ++ [page.place]
      let place ← locateFrom page name
      if chain.contains place then
        let path := fun place => (Path.absolute place).print
        throw (← check (Fault.ofCycle? ((chain ++ [place]).map path)))
      let base ← newPage place page.vars page.context chain
      updatePage base fun other => { other with mode := page.mode }
      prepare base
      adopt p base name) (do
      let chain := (page.shift k e cache).chain ++ [(page.shift k e cache).place]
      let place ← locateFrom (page.shift k e cache) (name.shift k)
      if chain.contains place then
        let path := fun place => (Path.absolute place).print
        throw (← check (Fault.ofCycle? ((chain ++ [place]).map path)))
      let base ← newPage place (page.shift k e cache).vars (page.shift k e cache).context chain
      updatePage base fun other => { other with mode := (page.shift k e cache).mode }
      prepare' base
      adopt (p + k) base (name.shift k)) := by
    refine (inStep_locate _ _ _).bind fun place => ?_
    have hChain : (page.shift k e cache).chain ++ [(page.shift k e cache).place]
        = page.chain ++ [page.place] := rfl
    dsimp only [id_eq]
    rw [hChain]
    split
    · exact inStep_check_bind fun fault => inStep_throw_bind fault fault
    · refine (inStep_newPage (hNear.directives p page hPage) place _ _).bind fun base => ?_
      refine InStep.bind (g := id) (inStep_updatePage ?_ ?_ base) fun _ => ?_
      · exact fun _ => rfl
      · exact fun _ => rfl
      · exact (hPrepare base).bind fun _ => inStep_adopt p base name
  exact hRest w w' hNear

end Pages

end Transparency

end PageBlocks
