import Mathlib.Data.List.Perm.Subperm
import PageBlocks.Proofs.Extending.Bodies

/-!
# Preparing pages that extend others

Preparing a page runs its body, and the calls of the body that extend the page prepare others. Here
the two are put together: what is told about the run of one body (`told_runBody`), what extending a
page comes to (`run_extend_of_mem`, `run_extend_of_not_mem`), and which page is prepared next when a
body extends its page (`InProgress.base`). Limiting how deep that nests is left open (`limited`),
and what happens beyond the limit too.
-/

set_option autoImplicit false

namespace PageBlocks.Extending

open PageBlocks.Body PageBlocks.Progress PageBlocks.Running PageBlocks.Site PageBlocks.Upkeep

/-! ## Bodies -/

/-- Run the body of a page and take down its calls. -/
def recordedBody (prepare : Nat → SiteM Unit) (p : Nat) : RecordM Unit := do
  unrecorded (onDraft p Draft.resetCaptures)
  unrecorded (modify fun w => { w with executed := w.executed + 1 })
  let page ← unrecorded (page p)
  let items ← unrecorded (bodyOf page)
  let scope ← unrecorded (check (scopeOf p page))
  let _ ← runAll (recorder (handlerOf prepare p page)) scope items
  unrecorded (onDraft p Draft.finish)

/-- The calls that the body of a page makes while the page is prepared. -/
def callsOf (p : Nat) (w : World) : List Moment := ((recordedBody Site.prepare p).run (w, [])).2.2

/-- A page whose file is another one than those of the pages in whose preparation it is nested. -/
structure Lined (files : FileTree Source) (page : Page) : Prop where
  nodup : (page.chain ++ [page.place]).Nodup
  exist : ∀ place ∈ page.chain ++ [page.place], files.isFileAt place = true

/-- A page in progress on a site whose bodies include no other page. -/
structure InProgress (directives : Table String Directive) (w : World) (p : Nat) (page : Page) :
    Prop where
  kept : Kept (terms directives) w w
  found : w.pages[p]? = some page
  lined : Lined w.files page

/-- A page that is to be prepared: no block is open in it. -/
structure Ready (directives : Table String Directive) (w : World) (p : Nat) (page : Page) : Prop
    extends InProgress directives w p page where
  closed : page.stack = [Outline.root]

section Lined

variable {files : FileTree Source} {page : Page}

theorem mem_keys_of_isFileAt {place : Place}
    (h : files.isFileAt place = true) : place ∈ files.keys := by
  by_contra hMissing
  rw [FileTree.isFileAt, Table.has, Table.get?_eq_none_iff.mpr hMissing] at h
  cases h

/-- Preparing pages nests less deep than there are files. -/
theorem Lined.length_lt (h : Lined files page) :
    page.chain.length < files.length := by
  have hSubset : page.chain ++ [page.place] ⊆ files.keys :=
    fun place hMem => mem_keys_of_isFileAt (h.exist place hMem)
  have hLength := (List.subperm_of_subset h.nodup hSubset).length_le
  rwa [List.length_append, List.length_singleton, Table.keys, List.length_map] at hLength

theorem Lined.same {page' : Page} (h : Lined files page)
    (hSame : SamePage page page') : Lined files page' := by
  constructor
  · rw [hSame.chain, hSame.place]
    exact h.nodup
  · rw [hSame.chain, hSame.place]
    exact h.exist

/-- A page that is nested in the preparation of no other one. -/
theorem lined_of_chain_nil (hAlone : page.chain = [])
    (hFile : files.isFileAt page.place = true) : Lined files page := by
  constructor
  · rw [hAlone]
    exact List.pairwise_singleton _ _
  · rw [hAlone]
    intro place hMem
    rw [List.nil_append, List.mem_singleton] at hMem
    rw [hMem]
    exact hFile

/-- A page with a further file that another page extends. -/
theorem Lined.extended {base : Page} (h : Lined files page)
    (hChain : base.chain = page.chain ++ [page.place])
    (hNew : base.place ∉ page.chain ++ [page.place])
    (hFile : files.isFileAt base.place = true) : Lined files base := by
  constructor
  · rw [hChain]
    refine List.nodup_append.mpr ⟨h.nodup, List.pairwise_singleton _ _, ?_⟩
    rintro old hOld last hLast rfl
    rw [List.mem_singleton] at hLast
    exact hNew (hLast ▸ hOld)
  · rw [hChain]
    intro place hMem
    rcases List.mem_append.mp hMem with hOld | hLast
    · exact h.exist place hOld
    · rw [List.mem_singleton] at hLast
      exact hLast ▸ hFile

end Lined

section Bodies

variable {directives : Table String Directive} {w w₀ : World} {p : Nat} {page : Page}
  {prepare prepare' : Nat → SiteM Unit}

theorem cycleOf_bodyAt (files : FileTree Source) (place : Place) :
    cycleOf (bodyAt files place) = none := by
  unfold bodyAt
  split
  · rfl
  · unfold Braces.read
    split
    · rfl
    · split <;> rfl
  · rfl

theorem cycleOf_scopeOf (p : Nat) (page : Page) : cycleOf (scopeOf p page) = none :=
  cycleOf_bind (cycleOf_namedVariables _ _) fun _ => rfl

theorem handlerOf_congr {other : Page} (h : other.context = page.context) :
    handlerOf prepare p other = handlerOf prepare p page := by
  unfold handlerOf
  rw [h]

/-- When a body starts, free names stand for harmless values. -/
theorem scopeFits_of_suits {outlines : Array Outline} {scope : Scope}
    (hPage : Suits (terms directives) outlines page) (h : scopeOf p page = .ok scope) :
    ScopeFits (rules directives) p scope := by
  -- for the scope of a page only the directives and the values matter
  refine scopeFits_scopeOf
    (t := { directives, cache := page.context.cache, fits := Value.isHarmless directives,
            modes := fun _ => true, tracks := true })
    closed_isHarmless rfl (fun _ _ hFree => hFree) ⟨hPage.context, rfl, hPage.vars⟩ h

/-- The record of the calls tells about running the body of a page in which no block is open. -/
theorem told_runBody (hKept : Kept (terms directives) w w) (hFound : w.pages[p]? = some page)
    (hClosed : page.stack = [Outline.root]) (hPrepare : Prepares (terms directives) prepare)
    (prepare' : Nat → SiteM Unit) :
    ∃ calls, Told (watch directives (rules directives) w p page prepare prepare')
      (runBody prepare p) (runBody prepare' p) (recordedBody prepare p)
      (fun _ w' => True ∧ Kept (terms directives) w w') w calls := by
  have hReports : (watch directives (rules directives) w p page prepare prepare').Reports :=
    reports_rules hPrepare
  have hReset : Told (watch directives (rules directives) w p page prepare prepare')
      (onDraft p Draft.resetCaptures) (onDraft p Draft.resetCaptures)
      (unrecorded (onDraft p Draft.resetCaptures)) (fun _ => Kept (terms directives) w) w [] := by
    refine told_of_spares (run_unrecorded _ w) ?_ (spares_onDraft (spares_modify _) w)
    exact ends_onDraft hKept hFound fun o => .resetCaptures hClosed
  unfold runBody recordedBody
  refine hReset.bind fun _ w₁ hKept₁ => ?_
  have hCount : Upholds (Kept (terms directives) w)
      (modify fun w => { w with executed := w.executed + 1 } : SiteM PUnit) fun _ => True :=
    fun w hKept => ends_modify ⟨trivial, hKept.aside rfl rfl rfl⟩
  -- the page is still the one that was to be prepared
  have hPage : Upholds (Kept (terms directives) w) (Site.page p) fun found =>
      found.context = page.context ∧ ∃ outlines, Suits (terms directives) outlines found := by
    intro w' hKept'
    obtain ⟨found, hFound', hSame⟩ := hKept'.course.same hFound
    exact ends_of_run (run_page hFound')
      ⟨⟨hSame.context, _, hKept'.pages p found hFound'⟩, hKept'⟩
  have hBody : ∀ found, Upholds (Kept (terms directives) w) (bodyOf found) fun items =>
      Item.allKeep (rules directives) items = true := by
    intro found w' hKept'
    have hRun := run_bodyOf found w'
    cases hItems : bodyAt w'.files found.place with
    | error fault => exact ends_of_run_error (hRun.trans (by rw [hItems])) hKept'
    | ok items =>
      refine ends_of_run (hRun.trans (by rw [hItems])) ⟨?_, hKept'⟩
      rw [hKept'.course.files] at hItems
      exact hKept.files _ _ hItems
  have hSparesBody : ∀ found, Spares (bodyOf found) := by
    intro found w'
    rw [run_bodyOf]
    exact cycleOf_bodyAt _ _
  have hFrom : ∀ {x x' : SiteM Unit} {y : RecordM Unit},
      Tells (watch directives (rules directives) w p page prepare prepare') x x' y (fun _ => True) →
        ∃ calls, Told (watch directives (rules directives) w p page prepare prepare') x x' y
          (fun _ w' => True ∧ Kept (terms directives) w w') w₁ calls :=
    fun hTells => hTells w₁ hKept₁
  refine hFrom ((tells_unrecorded hCount (spares_modify _)).seq fun _ => ?_)
  refine (tells_unrecorded hPage (spares_page p)).bind fun found hFound => ?_
  obtain ⟨hContext, outlines, hSuits⟩ := hFound
  refine (tells_unrecorded (hBody found) (hSparesBody found)).bind fun items hItems => ?_
  have hScopeFits : Upholds (Kept (terms directives) w) (check (scopeOf p found))
      (ScopeFits (rules directives) p) := upholds_check fun _ => scopeFits_of_suits hSuits
  refine (tells_unrecorded hScopeFits (spares_check (cycleOf_scopeOf p found))).bind ?_
  intro scope hScope
  have hRun : Tells (watch directives (rules directives) w p page prepare prepare')
      (runAll (handlerOf prepare p found) scope items)
      (runAll (handlerOf prepare' p found) scope items)
      (runAll (recorder (handlerOf prepare p found)) scope items)
      (ScopeFits (rules directives) p) := by
    rw [handlerOf_congr hContext, handlerOf_congr hContext]
    exact tells_runAll hReports items hItems hScope
  have hFinish : Upholds (Kept (terms directives) w) (onDraft p Draft.finish) fun _ => True :=
    upholds_onDraft fun _ => .finish
  exact hRun.bind fun _ _ => tells_unrecorded hFinish (spares_onDraft spares_finish)

theorem prepares_runBody (hPrepare : Prepares (terms directives) prepare) :
    Prepares (terms directives) (runBody prepare) := by
  intro w₀ w p hKept hFresh
  obtain ⟨page, hFound, hClosed⟩ := hFresh
  obtain ⟨calls, hTold⟩ := told_runBody hKept.now hFound hClosed hPrepare prepare
  exact Ends.mono hTold.ends (fun _ _ hEnd => hKept.trans hEnd.2) fun _ hEnd => hKept.trans hEnd

end Bodies

/-! ## Limits -/

/-- Preparing pages with a limit to how deep that nests, and a fault beyond it. -/
def limited (fault : Fault) : Nat → Nat → SiteM Unit
  | 0, _ => throw fault
  | levels + 1, p => runBody (limited fault levels) p

section Limits

variable {directives : Table String Directive}

theorem prepareFrom_eq_limited (levels : Nat) :
    prepareFrom levels = limited (.host .tooDeep) levels := by
  induction levels with
  | zero => rfl
  | succ levels ih =>
    funext p
    rw [prepareFrom, limited, ih]

theorem run_prepare (p : Nat) (w : World) :
    (Site.prepare p).run w = (limited (.host .tooDeep) (depthLimit w) p).run w := by
  unfold Site.prepare
  rw [run_bind_of_ok (run_get w), prepareFrom_eq_limited]

theorem prepares_limited (fault : Fault) (levels : Nat) :
    Prepares (terms directives) (limited fault levels) := by
  induction levels with
  | zero => exact fun _ _ _ hKept _ => ends_throw hKept
  | succ levels ih => exact prepares_runBody ih

theorem prepares_prepare : Prepares (terms directives) Site.prepare := by
  intro w₀ w p hKept hFresh
  unfold Ends
  rw [run_prepare]
  exact prepares_limited _ _ w₀ w p hKept hFresh

end Limits

/-! ## Extending -/

/-- The place of the template that a page calls by a name. -/
def placeFor (w : World) (page : Page) (name : Value) : Except Fault Place :=
  placeAt w.files page.context.locator name [page.path.parent]

/-- The page that a page extends, as it is made before it is prepared. -/
def baseFor (page : Page) (place : Place) : SiteM Nat := do
  let base ← newPage place page.vars page.context (page.chain ++ [page.place])
  updatePage base fun other => { other with mode := page.mode }
  return base

section Extending

variable {directives : Table String Directive} {w w' : World} {p b : Nat} {page : Page}
  {prepare prepare' : Nat → SiteM Unit} {name : Value} {place : Place}

theorem run_extend_of_error {fault : Fault} (hPage : w.pages[p]? = some page)
    (hPlace : placeFor w page name = .error fault) :
    (extend prepare p name).run w = (.error fault, w) := by
  have hRun := run_locate page.context.locator name [page.path.parent] w
  unfold extend
  rw [run_bind_of_ok (run_page hPage)]
  exact run_bind_of_error (hRun.trans (Prod.ext hPlace rfl)) _

/-- Extending a page by one in progress reports the chain of those with the repeated one. -/
theorem run_extend_of_mem (hPage : w.pages[p]? = some page)
    (hPlace : placeFor w page name = .ok place) (hMem : place ∈ page.chain ++ [page.place]) :
    cycleOf ((extend prepare p name).run w).1
      = some ((page.chain ++ [page.place] ++ [place]).map fun place =>
          (Path.absolute place).print) := by
  have hRun := run_locate page.context.locator name [page.path.parent] w
  have hContains : (page.chain ++ [page.place]).contains place = true :=
    List.contains_iff_mem.mpr hMem
  unfold extend
  rw [run_bind_of_ok (run_page hPage)]
  unfold locateFrom
  rw [run_bind_of_ok (hRun.trans (Prod.ext hPlace rfl))]
  dsimp only
  simp only [hContains, if_true]
  cases hTexts : (page.chain ++ [page.place] ++ [place]).map fun place =>
      (Path.absolute place).print with
  | nil => simp at hTexts
  | cons first rest => rfl

/-- Extending a page by another one makes a page for it, prepares it and goes on with it. -/
theorem run_extend_of_not_mem (hPage : w.pages[p]? = some page)
    (hPlace : placeFor w page name = .ok place) (hNew : place ∉ page.chain ++ [page.place]) :
    (extend prepare p name).run w = (do
      let base ← baseFor page place
      prepare base
      adopt p base name : SiteM Unit).run w := by
  have hRun := run_locate page.context.locator name [page.path.parent] w
  have hContains : (page.chain ++ [page.place]).contains place = false := by
    rw [Bool.eq_false_iff]
    exact fun h => hNew (List.contains_iff_mem.mp h)
  unfold extend
  rw [run_bind_of_ok (run_page hPage)]
  unfold locateFrom
  rw [run_bind_of_ok (hRun.trans (Prod.ext hPlace rfl))]
  dsimp only
  simp only [hContains, Bool.false_eq_true, if_false, baseFor, bind_assoc, pure_bind]

theorem spares_baseFor : Spares (baseFor page place) :=
  (spares_newPage _ _ _ _).bind fun _ => (spares_updatePage _).bind fun _ => spares_pure _

/-- Extending a page by one that is not in progress reports a cycle if preparing that one does. -/
theorem cycle_extend_of_not_mem (hPage : w.pages[p]? = some page)
    (hPlace : placeFor w page name = .ok place) (hNew : place ∉ page.chain ++ [page.place])
    (texts : List String) :
    cycleOf ((extend prepare p name).run w).1 = some texts
      ↔ ∃ base w', (baseFor page place).run w = (.ok base, w')
        ∧ cycleOf ((prepare base).run w').1 = some texts := by
  rw [run_extend_of_not_mem hPage hPlace hNew]
  rcases hBase : (baseFor page place).run w with ⟨fault | base, w'⟩
  · have hNone : cycleOf ((baseFor page place).run w).1 = none := spares_baseFor w
    rw [hBase, cycleOf_error (β := Unit)] at hNone
    rw [run_bind_of_error hBase, hNone]
    constructor
    · intro h
      cases h
    · rintro ⟨base, w', h, -⟩
      cases h
  · have hAdopt : cycleOf ((prepare base >>= fun _ => adopt p base name).run w').1
        = cycleOf ((prepare base).run w').1 := by
      rw [run_bind]
      rcases hPrepared : (prepare base).run w' with ⟨fault | a, w''⟩
      · rfl
      · exact spares_adopt base name w''
    rw [run_bind_of_ok hBase, hAdopt]
    constructor
    · exact fun h => ⟨base, w', rfl, h⟩
    · rintro ⟨base, w', h, hCycle⟩
      cases h
      exact hCycle

/-- Extending a page reports a cycle if it calls for a page in progress, or if preparing the page
that it calls for does. -/
theorem cycle_extend (hPage : w.pages[p]? = some page) (texts : List String) :
    cycleOf ((extend prepare p name).run w).1 = some texts
      ↔ ∃ place, placeFor w page name = .ok place
        ∧ (place ∈ page.chain ++ [page.place]
            ∧ texts = (page.chain ++ [page.place] ++ [place]).map
                (fun place => (Path.absolute place).print)
          ∨ place ∉ page.chain ++ [page.place] ∧ ∃ base w',
            (baseFor page place).run w = (.ok base, w')
            ∧ cycleOf ((prepare base).run w').1 = some texts) := by
  cases hPlace : placeFor w page name with
  | error fault =>
    have hNone : cycleOf (.error fault : Except Fault Unit) = none := by
      have hSpares := cycleOf_placeAt w.files page.context.locator name [page.path.parent]
      rwa [show placeAt w.files page.context.locator name [page.path.parent] = .error fault from
        hPlace, cycleOf_error (β := Unit)] at hSpares
    rw [run_extend_of_error hPage hPlace, hNone]
    constructor
    · intro h
      cases h
    · rintro ⟨place, h, -⟩
      cases h
  | ok place =>
    by_cases hMem : place ∈ page.chain ++ [page.place]
    · rw [run_extend_of_mem hPage hPlace hMem]
      constructor
      · intro h
        cases h
        exact ⟨place, rfl, .inl ⟨hMem, rfl⟩⟩
      · rintro ⟨found, h, hCycle⟩
        cases h
        rcases hCycle with ⟨-, rfl⟩ | ⟨hNew, -⟩
        · rfl
        · exact absurd hMem hNew
    · rw [cycle_extend_of_not_mem hPage hPlace hMem]
      constructor
      · exact fun h => ⟨place, rfl, .inr ⟨hMem, h⟩⟩
      · rintro ⟨found, h, hCycle⟩
        cases h
        rcases hCycle with ⟨hOld, -⟩ | ⟨-, hNested⟩
        · exact absurd hOld hMem
        · exact hNested

/-- The next page that is to be prepared. -/
theorem InProgress.base (hPage : InProgress directives w p page)
    (hPlace : placeFor w page name = .ok place) (hNew : place ∉ page.chain ++ [page.place])
    (hRun : (baseFor page place).run w = (.ok b, w')) :
    ∃ base, Ready directives w' b base ∧ base.chain = page.chain ++ [page.place]
      ∧ w'.files = w.files := by
  have hFile : w.files.isFileAt place = true := isFileAt_of_placeAt hPlace
  have hSuits := hPage.kept.pages p page hPage.found
  have hMade := ends_newPage hPage.kept hPage.found hFile hSuits.vars (.inr ⟨rfl, hNew⟩)
  obtain ⟨made, w₁, hNewPage, hRest⟩ := run_bind_eq_ok hRun
  have hKept := (hMade.of_run hNewPage).2
  obtain ⟨id, -, rfl, rfl⟩ := run_newPage_eq_ok hNewPage
  have hMode := (upholds_updatePage (p := w.pages.size)
    (f := fun other => { other with mode := page.mode })
    (fun _ => ⟨⟨rfl, rfl, rfl, rfl⟩, rfl, rfl, rfl⟩) fun _ hVars => hVars).run hKept
  cases hRest
  refine ⟨{ place, vars := page.vars, context := page.context, id, outline := w.outlines.size,
            chain := page.chain ++ [page.place], mode := page.mode },
    ⟨⟨hMode.now, ?_, hPage.lined.extended rfl hNew hFile⟩, rfl⟩, rfl, rfl⟩
  dsimp only
  rw [Array.getElem?_modify, if_pos rfl, Array.getElem?_push_size]
  rfl

/-- Extending a page with two ways of preparing others is the same if preparing the next one is. -/
theorem extend_congr (hPage : w.pages[p]? = some page)
    (h : ∀ place b w', placeFor w page name = .ok place → place ∉ page.chain ++ [page.place] →
      (baseFor page place).run w = (.ok b, w') → (prepare b).run w' = (prepare' b).run w') :
    (extend prepare p name).run w = (extend prepare' p name).run w := by
  cases hPlace : placeFor w page name with
  | error fault => rw [run_extend_of_error hPage hPlace, run_extend_of_error hPage hPlace]
  | ok place =>
    by_cases hMem : place ∈ page.chain ++ [page.place]
    · have hRun := run_locate page.context.locator name [page.path.parent] w
      have hContains : (page.chain ++ [page.place]).contains place = true :=
        List.contains_iff_mem.mpr hMem
      unfold extend
      rw [run_bind_of_ok (run_page hPage), run_bind_of_ok (run_page hPage)]
      unfold locateFrom
      rw [run_bind_of_ok (hRun.trans (Prod.ext hPlace rfl)),
        run_bind_of_ok (hRun.trans (Prod.ext hPlace rfl))]
      dsimp only
      simp only [hContains, if_true, run_bind]
      rfl
    · rw [run_extend_of_not_mem hPage hPlace hMem, run_extend_of_not_mem hPage hPlace hMem]
      rcases hBase : (baseFor page place).run w with ⟨fault | b, w'⟩
      · rw [run_bind_of_error hBase, run_bind_of_error hBase]
      · rw [run_bind_of_ok hBase, run_bind_of_ok hBase, run_bind, run_bind,
          h place b w' hPlace hMem hBase]

end Extending

end PageBlocks.Extending
