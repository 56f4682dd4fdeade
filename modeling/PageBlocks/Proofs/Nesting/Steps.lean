import PageBlocks.Proofs.Confinement.Failing
import PageBlocks.Proofs.Inheritance.Drawing
import PageBlocks.Proofs.Nesting.Brackets

/-!
# Steps of pages

What openings, ends and writing do to a page of which it is known which blocks are open (`Stands`).
Writing leaves them as they are, an opening puts its block on top, an end takes the topmost one away
and is a fault where there is none. A page that extended another one has no open block, whatever the
bodies of other pages did meanwhile (`draftAt_of_run_extend`).

The steps are taken one after the other (`perform`), between what is done before and after the body
of a page is run (`prepareBy`).
-/

set_option autoImplicit false

namespace PageBlocks.Nesting

open PageBlocks.Body PageBlocks.Confinement PageBlocks.Inheritance PageBlocks.Running
  PageBlocks.Site PageBlocks.Upkeep
open PageBlocks.Progress (SamePage)

/-! ## Steps of drafts -/

/-- The stack of a page with these blocks open. -/
def stackOf (held : List Held) : List Nat := held.map Held.number ++ [Outline.root]

/-- An outline with blocks of the names of open ones. -/
structure Bears (held : List Held) (o : Outline) : Prop where
  labelled : o.IsLabelled
  blocks : ∀ h ∈ held, ∃ b, o.block? h.number = some b ∧ b.name = h.name

/-- A draft with these blocks open, and with a text captured for each of them and for the root. -/
structure Stands (held : List Held) (d : Draft) : Prop where
  bears : Bears held d.outline
  stack : d.stack = stackOf held
  captures : ∃ texts : List String, texts.length = held.length + 1
    ∧ d.captures = texts.map Capture.text

/-- The name of a block, as far as it can be told from the name that was asked for. -/
def IsCalled (name asked : Value) : Prop := name = asked ∨ (name == asked) = true

/-- Open the block that a step opens. -/
def Step.enter : Step → DraftM Nat
  | opening name mode => Draft.openBlock name mode
  | adding b mode => Draft.addBlock b mode
  | _ => return Outline.root

section Drafts

variable {held : List Held} {h : Held} {d d' : Draft} {i : Nat}

theorem lasting_bears (held : List Held) : Draft.Lasting (Bears held) fun _ => True where
  plain _ _ := trivial
  update {o i f} hBears hSame := by
    refine ⟨hBears.labelled.update fun b => (hSame b).1, fun h hMem => ?_⟩
    obtain ⟨b, hBlock, hName⟩ := hBears.blocks h hMem
    rw [Outline.block?_update, hBlock]
    split
    · exact ⟨f b, rfl, (hSame b).1.trans hName⟩
    · exact ⟨b, rfl, hName⟩
  declare {o parent b} hBears _ hFree := by
    refine ⟨Outline.lasting_isLabelled.declare hBears.labelled trivial hFree, fun h hMem => ?_⟩
    obtain ⟨old, hBlock, hName⟩ := hBears.blocks h hMem
    obtain ⟨new, hNew, hSame⟩ := Outline.exists_block?_addChild_of_eq_some parent b hBlock
    exact ⟨new, hNew, hSame.trans hName⟩

theorem bears_nil {o : Outline} (h : o.IsLabelled) : Bears [] o :=
  ⟨h, fun _ hMem => absurd hMem List.not_mem_nil⟩

/-- Opening a block that is registered. -/
theorem block?_reopened {o : Outline} {name : Value} (hLabelled : o.IsLabelled)
    (hFind : o.find? name = some i) (mode : ApplyMode) :
    ∃ b, (opened (marked o i) i mode).block? i = some b ∧ IsCalled b.name name := by
  obtain ⟨b, hBlock, hSame⟩ := hLabelled.exists_block hFind
  refine ⟨{ b with extended := true, mode }, ?_, .inr hSame⟩
  rw [opened, Outline.block?_update_self, marked, Outline.block?_update_self, hBlock]
  rfl

/-- Opening a new block. -/
theorem block?_declared {o : Outline} (parent : Nat) (b : Block) (mode : ApplyMode) :
    ∃ child, (opened ((o.addChild parent b).2.register b.name o.blocks.length) o.blocks.length
      mode).block? o.blocks.length = some child ∧ IsCalled child.name b.name := by
  obtain ⟨child, hChild, hName⟩ := Outline.exists_block?_addChild (o := o) parent b
  refine ⟨{ child with mode }, ?_, .inl hName⟩
  rw [opened, Outline.block?_update_self, Outline.block?_register, hChild]
  rfl

/-- A step that opens a block puts it on top of the others, and the block has the name that was
asked for. -/
theorem exists_of_enter {o : Step} (hOpens : o.opens = true) (hLabelled : d.outline.IsLabelled)
    (hRun : o.enter.run d = (.ok i, d')) :
    ∃ out b asked, d' = entered d out i ∧ out.block? i = some b ∧ o.opened? = some asked
      ∧ IsCalled b.name asked := by
  cases o with
  | opening name mode =>
    cases hName : Draft.checkName name with
    | error fault =>
      rw [Step.enter, Draft.openBlock, run_checkName_bind, hName] at hRun
      cases hRun
    | ok _ =>
      rw [Step.enter] at hRun
      cases hFind : d.outline.find? name with
      | some j =>
        rw [run_openBlock_of_found mode hName hFind] at hRun
        cases hRun
        obtain ⟨b, hBlock, hCalled⟩ := block?_reopened hLabelled hFind mode
        exact ⟨_, b, name, rfl, hBlock, rfl, hCalled⟩
      | none =>
        rw [run_openBlock_of_none mode hName hFind] at hRun
        cases hRun
        obtain ⟨b, hBlock, hCalled⟩ := block?_declared (o := d.outline) d.current
          (Block.plain (((d.outline.block? d.current).map Block.owner).getD "") name) mode
        exact ⟨_, b, name, rfl, hBlock, rfl, hCalled⟩
  | adding b mode =>
    cases hName : Draft.checkName b.name with
    | error fault =>
      rw [Step.enter, Draft.addBlock, run_checkName_bind, hName] at hRun
      cases hRun
    | ok _ =>
      rw [Step.enter] at hRun
      cases hFind : d.outline.find? b.name with
      | some j =>
        obtain ⟨existing, hBlock, -⟩ := hLabelled.exists_block hFind
        by_cases hKind : existing.kind = b.kind
        · rw [run_addBlock_of_found mode hName hFind hBlock hKind] at hRun
          cases hRun
          obtain ⟨c, hBlock', hCalled⟩ := block?_reopened hLabelled hFind mode
          exact ⟨_, c, b.name, rfl, hBlock', rfl, hCalled⟩
        · have hRefused : ∃ path name kind other, ((Draft.addBlock b mode).run d).1
              = .error (.blockTypeMismatch path name kind other) :=
            (addBlock_mismatch_iff hName).mpr ⟨j, existing, hFind, hBlock, hKind⟩
          obtain ⟨path, name, kind, other, hFails⟩ := hRefused
          rw [hRun] at hFails
          cases hFails
      | none =>
        rw [run_addBlock_of_none mode hName hFind] at hRun
        cases hRun
        obtain ⟨c, hBlock, hCalled⟩ := block?_declared (o := d.outline) d.current b mode
        exact ⟨_, c, b.name, rfl, hBlock, rfl, hCalled⟩
  | write _ | close | extend _ => cases hOpens

theorem Step.keeps_enter (o : Step) {P : Outline → Prop}
    (hLasting : Draft.Lasting P fun _ => True) : Draft.Keeps P o.enter := by
  cases o with
  | opening name mode => exact hLasting.openBlock name mode
  | adding b mode => exact hLasting.addBlock trivial mode
  | write _ | close | extend _ => exact fun _ hOutline => ends_pure hOutline

namespace Stands

theorem write (hStands : Stands held d) (s : String) :
    ∃ d', (Draft.write (.text s)).run d = (.ok (), d') ∧ Stands held d' := by
  obtain ⟨texts, hLength, hCaptures⟩ := hStands.captures
  obtain ⟨text, texts, rfl⟩ : ∃ text more, texts = text :: more :=
    List.exists_cons_of_length_eq_add_one hLength
  exact ⟨_, run_write s hCaptures, hStands.bears, hStands.stack, (text ++ s) :: texts, hLength, rfl⟩

/-- A block is opened above those that are open. -/
theorem enter {o : Step} (hStands : Stands held d) (hOpens : o.opens = true)
    (hRun : o.enter.run d = (.ok i, d')) (earlier : List Step) :
    ∃ b asked, d'.outline.block? i = some b ∧ o.opened? = some asked ∧ IsCalled b.name asked
      ∧ d'.stack = i :: d.stack ∧ Stands (⟨earlier, o, i, b.name⟩ :: held) d' := by
  obtain ⟨out, b, asked, rfl, hBlock, hAsked, hCalled⟩ :=
    exists_of_enter hOpens hStands.bears.labelled hRun
  have hKept : Bears held (o.enter.run d).2.outline :=
    (o.keeps_enter (lasting_bears held)).run hStands.bears
  rw [hRun] at hKept
  obtain ⟨texts, hLength, hCaptures⟩ := hStands.captures
  refine ⟨b, asked, hBlock, hAsked, hCalled, rfl, ?_⟩
  constructor
  · exact ⟨hKept.labelled, List.forall_mem_cons.mpr ⟨⟨b, hBlock, rfl⟩, hKept.blocks⟩⟩
  · exact congrArg (i :: ·) hStands.stack
  · exact ⟨"" :: texts, congrArg (· + 1) hLength, congrArg (Capture.empty :: ·) hCaptures⟩

/-- The innermost open block is closed. -/
theorem close (hStands : Stands (h :: held) d) :
    ∃ d' captured rest b, Draft.close.run d = (.ok (), d') ∧ Stands held d'
      ∧ d.captures = .text captured :: rest ∧ d.outline.block? h.number = some b
      ∧ d'.outline.block? h.number = some (b.merge captured) := by
  obtain ⟨texts, hLength, hCaptures⟩ := hStands.captures
  obtain ⟨captured, texts, rfl⟩ : ∃ text more, texts = text :: more :=
    List.exists_cons_of_length_eq_add_one hLength
  obtain ⟨text, texts, rfl⟩ : ∃ text more, texts = text :: more :=
    List.exists_cons_of_length_eq_add_one (Nat.succ.inj hLength)
  obtain ⟨b, hBlock, -⟩ := hStands.bears.blocks h List.mem_cons_self
  have hBelow : stackOf held ≠ [] := List.append_ne_nil_of_right_ne_nil _ (List.cons_ne_nil _ _)
  have hRun := run_close hStands.stack hBelow hCaptures hBlock
  have hKept := ((lasting_bears (h :: held)).close).run hStands.bears
  rw [hRun] at hKept
  refine ⟨_, captured, _, b, hRun, ⟨?_, rfl, ?_⟩, hCaptures, hBlock, ?_⟩
  · exact ⟨hKept.labelled, (List.forall_mem_cons.mp hKept.blocks).2⟩
  · exact ⟨(if b.extended then text else text ++ b.token) :: texts, Nat.succ.inj hLength, rfl⟩
  · show (d.outline.update h.number fun b => b.merge captured).block? h.number = _
    rw [Outline.block?_update_self, hBlock]
    rfl

/-- Where no block is open, there is nothing to close. -/
theorem close_error (hStands : Stands [] d) :
    Draft.close.run d = (.error (.blockStack d.path .noOpenBlock), d) := by
  unfold Draft.close
  rw [run_bind_of_ok (run_get d), hStands.stack]
  rfl

theorem openNames_eq (hStands : Stands held d) :
    d.openNames = (held.map Held.name).reverse := by
  have hNames : ∀ held : List Held, (∀ h ∈ held, ∃ b, d.outline.block? h.number = some b
      ∧ b.name = h.name) →
      (held.map Held.number).filterMap (fun i => (d.outline.block? i).map Block.name)
        = held.map Held.name := by
    intro held hBlocks
    induction held with
    | nil => rfl
    | cons h held ih =>
      rw [List.forall_mem_cons] at hBlocks
      obtain ⟨⟨b, hBlock, hName⟩, hRest⟩ := hBlocks
      simp only [List.map_cons, List.filterMap_cons, hBlock, Option.map_some, hName, ih hRest]
  unfold Draft.openNames
  rw [hStands.stack, stackOf, List.dropLast_concat, List.filterMap_reverse,
    hNames held hStands.bears.blocks]

/-- A page with open blocks is not complete. -/
theorem finish_error (hStands : Stands held d) (hOpen : held ≠ []) :
    Draft.finish.run d
      = (.error (.blockStack d.path (.unclosed (held.map Held.name).reverse)), d) := by
  have hLength : d.stack.length > 1 := by
    rw [hStands.stack, stackOf, List.length_append, List.length_map]
    have hPos := List.length_pos_of_ne_nil hOpen
    simpa using hPos
  unfold Draft.finish
  rw [run_bind_of_ok (run_get d), if_pos hLength, hStands.openNames_eq]
  rfl

/-- A page without open blocks is complete. -/
theorem finish (hStands : Stands [] d) : ∃ d', Draft.finish.run d = (.ok (), d') := by
  obtain ⟨texts, hLength, hCaptures⟩ := hStands.captures
  obtain ⟨text, rfl⟩ := List.length_eq_one_iff.mp hLength
  have hStack := hStands.stack
  obtain ⟨path, o, stack, captures⟩ := d
  cases hStack
  cases hCaptures
  unfold Draft.finish
  rw [run_bind_of_ok (run_get _)]
  cases o.block? Outline.root with
  | none => exact ⟨_, rfl⟩
  | some root =>
    cases hExtended : root.extended with
    | true => exact ⟨_, by simp only [hExtended]; rfl⟩
    | false => exact ⟨_, by simp only [hExtended]; rfl⟩

end Stands

end Drafts

/-! ## Steps of pages -/

section

variable (prepare : Nat → SiteM Unit) (p : Nat)

/-- Take a step on a page, given how other pages are prepared. -/
def Step.perform : Step → SiteM Unit
  | write s => onDraft p (Draft.write (.text s))
  | opening name mode => do
    let _ ← onDraft p (Draft.openBlock name mode)
  | adding b mode => do
    let _ ← onDraft p (Draft.addBlock b mode)
  | close => onDraft p Draft.close
  | extend name => Site.extend prepare p name

/-- Take steps in order. -/
def perform (steps : List Step) : SiteM Unit := steps.forM (Step.perform prepare p)

/-- What is done before the body of a page is run. -/
def startRun : SiteM Unit := do
  onDraft p Draft.resetCaptures
  modify fun w => { w with executed := w.executed + 1 }

/-- Prepare a page whose body takes steps. -/
def prepareBy (steps : List Step) : SiteM Unit := do
  startRun p
  perform prepare p steps
  onDraft p Draft.finish

/-- From one site, preparing the page leads over steps to another one. -/
def Reaches (w : World) (steps : List Step) (v : World) : Prop :=
  (do
    startRun p
    perform prepare p steps : SiteM Unit).run w = (.ok (), v)

end

/-- The page of a number has the settings and the identity of another one. -/
def IsSameAt (w : World) (p : Nat) (home : Page) : Prop :=
  ∃ page, w.pages[p]? = some page ∧ SamePage home page

/-- The draft of a page. -/
def draftAt (w : World) (p : Nat) : Option Draft := do
  let page ← w.pages[p]?
  let o ← w.outlines[page.outline]?
  return draftOf page o

section Steps

variable {prepare : Nat → SiteM Unit} {p : Nat} {w v v' : World} {steps : List Step} {step : Step}
  {d : Draft} {fault : Fault}

theorem perform_cons (step : Step) (steps : List Step) :
    perform prepare p (step :: steps)
      = step.perform prepare p >>= fun _ => perform prepare p steps := rfl

theorem perform_append (steps more : List Step) :
    perform prepare p (steps ++ more)
      = perform prepare p steps >>= fun _ => perform prepare p more := List.forM_append

theorem draftAt_eq_some {page : Page} {o : Outline} (hPage : w.pages[p]? = some page)
    (hOutline : w.outlines[page.outline]? = some o) : draftAt w p = some (draftOf page o) := by
  unfold draftAt
  rw [hPage, Option.bind_eq_bind, Option.bind_some, hOutline]
  rfl

theorem exists_of_draftAt (h : draftAt w p = some d) :
    ∃ page o, w.pages[p]? = some page ∧ w.outlines[page.outline]? = some o
      ∧ d = draftOf page o := by
  obtain ⟨page, hPage, hRest⟩ := Option.bind_eq_some_iff.mp h
  obtain ⟨o, hOutline, hDraft⟩ := Option.bind_eq_some_iff.mp hRest
  exact ⟨page, o, hPage, hOutline, (Option.some.inj hDraft).symm⟩

theorem IsSameAt.lasts {home : Page} (h : IsSameAt v p home) (hLasts : Lasts v v') :
    IsSameAt v' p home := by
  obtain ⟨page, hPage, hSame⟩ := h
  obtain ⟨page', hPage', hSame'⟩ := hLasts.pages p page hPage
  exact ⟨page', hPage', hSame.trans hSame'⟩

/-- A step of a page's draft. -/
theorem exists_run_onDraft {α : Type} (h : draftAt w p = some d) (x : DraftM α) :
    ∃ w', (onDraft p x).run w = ((x.run d).1, w')
      ∧ draftAt w' p = some { (x.run d).2 with path := d.path } := by
  obtain ⟨page, o, hPage, hOutline, rfl⟩ := exists_of_draftAt h
  refine ⟨_, run_onDraft_eq hPage hOutline x, ?_⟩
  unfold draftAt
  dsimp only
  rw [Array.getElem?_modify, if_pos rfl, hPage, Option.map_some, Option.bind_eq_bind,
    Option.bind_some]
  dsimp only
  rw [Array.getElem?_modify, if_pos rfl, hOutline]
  rfl

theorem reaches_nil (h : draftAt w p = some d) :
    ∃ v, Reaches prepare p w [] v
      ∧ draftAt v p = some { d with captures := [Capture.empty] } := by
  obtain ⟨v, hRun, hDraft⟩ := exists_run_onDraft h Draft.resetCaptures
  refine ⟨{ v with executed := v.executed + 1 }, ?_, hDraft⟩
  unfold Reaches startRun
  rw [bind_assoc, run_bind_of_ok hRun]
  rfl

theorem Reaches.concat (h : Reaches prepare p w steps v)
    (hStep : (step.perform prepare p).run v = (.ok (), v')) :
    Reaches prepare p w (steps ++ [step]) v' := by
  obtain ⟨_, u, hStart, hSteps⟩ := run_bind_eq_ok h
  refine (run_bind_of_ok hStart _).trans ?_
  rw [perform_append, run_bind_of_ok hSteps]
  exact run_bind_of_ok hStep _

/-- A step that fails ends the run. -/
theorem Reaches.run_of_error {before after : List Step} (h : Reaches prepare p w before v)
    (hStep : (step.perform prepare p).run v = (.error fault, v')) :
    (prepareBy prepare p (before ++ step :: after)).run w = (.error fault, v') := by
  obtain ⟨_, u, hStart, hSteps⟩ := run_bind_eq_ok h
  have hFails : (perform prepare p (before ++ step :: after)).run u = (.error fault, v') := by
    rw [perform_append, run_bind_of_ok hSteps]
    exact run_bind_of_error hStep _
  unfold prepareBy
  rw [run_bind_of_ok hStart]
  exact run_bind_of_error hFails _

/-- After all steps the page is completed. -/
theorem Reaches.run_eq (h : Reaches prepare p w steps v) :
    (prepareBy prepare p steps).run w = (onDraft p Draft.finish).run v := by
  obtain ⟨_, u, hStart, hSteps⟩ := run_bind_eq_ok h
  unfold prepareBy
  rw [run_bind_of_ok hStart, run_bind_of_ok hSteps]

/-- A step leaves a sound site sound, and every page what it is. -/
theorem lasts_perform (hPrepare : everywhere.Prepares prepare) (hSound : Sound v) (step : Step) :
    Lasts v ((step.perform prepare p).run v).2 := by
  have hDraft : ∀ {α : Type} {x : DraftM α}, Draft.Keeps Outline.IsLabelled x →
      Upholds (Lasts v) (onDraft p x) fun _ => True := fun hKeeps =>
    upholds_onDraft (L := everywhere) hSound trivial hKeeps
  cases step with
  | write s => exact (hDraft (Outline.lasting_isLabelled.write _)).run (Lasts.refl v)
  | opening name mode =>
    have hOpened : Upholds (Lasts v) ((Step.opening name mode).perform prepare p) fun _ => True :=
      (hDraft (Outline.lasting_isLabelled.openBlock name mode)).seq fun _ => upholds_pure trivial
    exact hOpened.run (Lasts.refl v)
  | adding b mode =>
    have hOpened : Upholds (Lasts v) ((Step.adding b mode).perform prepare p) fun _ => True :=
      (hDraft (Outline.lasting_isLabelled.addBlock trivial mode)).seq fun _ => upholds_pure trivial
    exact hOpened.run (Lasts.refl v)
  | close => exact (hDraft Outline.lasting_isLabelled.close).run (Lasts.refl v)
  | extend name =>
    exact (upholds_extend (L := everywhere) hPrepare hSound trivial name).run (Lasts.refl v)

theorem lasts_performAll (hPrepare : everywhere.Prepares prepare) (hSound : Sound v)
    (steps : List Step) : Lasts v ((perform prepare p steps).run v).2 := by
  induction steps generalizing v with
  | nil => exact Lasts.refl v
  | cons step steps ih =>
    have hFirst := lasts_perform (p := p) hPrepare hSound step
    rw [perform_cons, run_bind]
    rcases hRun : (step.perform prepare p).run v with ⟨fault | _, u⟩
    · rw [hRun] at hFirst
      exact hFirst
    · rw [hRun] at hFirst
      exact hFirst.trans (ih (hFirst.sound hSound))

/-- A page that goes on with the outline of another one has no open block. -/
theorem draftAt_of_run_adopt {page : Page} {base : Nat} {name : Value} (hSound : Sound v)
    (hPage : v.pages[p]? = some page) (hRun : (adopt p base name).run v = (.ok (), v')) :
    ∃ d, draftAt v' p = some d ∧ Stands [] d := by
  unfold adopt updatePage at hRun
  cases hBase : v.pages[base]? with
  | none =>
    rw [run_bind_of_error (run_page_error hBase)] at hRun
    cases hRun
  | some prepared =>
    rw [run_bind_of_ok (run_page hBase), run_bind_of_ok (run_modify _ _)] at hRun
    obtain ⟨o, hOutline⟩ : ∃ o, v.outlines[prepared.outline]? = some o :=
      ⟨_, Array.getElem?_eq_getElem (hSound.lodged base prepared hBase)⟩
    have hHere : ∀ f : Page → Page, (v.pages.modify p f)[p]? = some (f page) := by
      intro f
      rw [Array.getElem?_modify, if_pos rfl, hPage]
      rfl
    generalize hAdopted : ({ v with pages := v.pages.modify p _ } : World) = u at hRun
    obtain ⟨turned, hTurned, hNumber, hStack, hCaptures⟩ : ∃ turned, u.pages[p]? = some turned
        ∧ turned.outline = prepared.outline ∧ turned.stack = stackOf []
        ∧ turned.captures = [Capture.empty] := by
      rw [← hAdopted]
      exact ⟨_, hHere _, rfl, rfl, rfl⟩
    have hThere : u.outlines[turned.outline]? = some o := by
      rw [← hAdopted, hNumber]
      exact hOutline
    obtain ⟨w', hMark, hDraft⟩ := exists_run_onDraft (draftAt_eq_some hTurned hThere)
      (Draft.markExtended Outline.root)
    rw [hMark] at hRun
    cases hRun
    refine ⟨_, hDraft, bears_nil ?_, hStack, [""], rfl, hCaptures⟩
    exact (Outline.lasting_isLabelled.markExtended Outline.root).run
      (d := draftOf turned _) (hSound.labelled _ _ hOutline)

theorem draftAt_of_run_extend (hPrepare : everywhere.Prepares prepare) (hSound : Sound v)
    {page : Page} {name : Value} (hPage : v.pages[p]? = some page)
    (hRun : (Site.extend prepare p name).run v = (.ok (), v')) :
    ∃ d, draftAt v' p = some d ∧ Stands [] d := by
  rw [extend_eq] at hRun
  obtain ⟨base, u, hBase, hAdopt⟩ := run_bind_eq_ok hRun
  have hLasts := ((ends_preparedBase (L := everywhere) hPrepare hSound p name
    (Lasts.refl v)).of_run hBase).2
  obtain ⟨page', hPage', -⟩ := hLasts.pages p page hPage
  exact draftAt_of_run_adopt (hLasts.sound hSound) hPage' hAdopt

/-- Before the body of a page is run, the text that was captured for it is dropped. -/
theorem exists_run_startRun {page : Page} (hSound : Sound w) (hPage : w.pages[p]? = some page) :
    ∃ u, (startRun p).run w = (.ok (), u) ∧ u.files = w.files
      ∧ u.pages[p]? = some { page with captures := [Capture.empty] } := by
  have hOutline := Array.getElem?_eq_getElem (hSound.lodged p page hPage)
  refine ⟨_, run_bind_of_ok (run_onDraft_eq hPage hOutline Draft.resetCaptures) _, rfl, ?_⟩
  dsimp only
  rw [Array.getElem?_modify, if_pos rfl, hPage]
  rfl

/-- What is done before the body is run leaves a sound site sound. -/
theorem lasts_startRun (hSound : Sound v) : Lasts v ((startRun p).run v).2 := by
  have hReset : Upholds (Lasts v) (onDraft p Draft.resetCaptures) fun _ => True :=
    upholds_onDraft (L := everywhere) hSound trivial Outline.lasting_isLabelled.resetCaptures
  have hCount : Upholds (Lasts v)
      (modify fun w => { w with executed := w.executed + 1 } : SiteM PUnit) fun _ => True :=
    fun _ hLasts => ends_modify ⟨trivial, hLasts.trans (.of_samePages rfl rfl)⟩
  exact (hReset.seq fun _ => hCount).run (Lasts.refl v)

end Steps

end PageBlocks.Nesting
