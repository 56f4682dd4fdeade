import PageBlocks.Proofs.Coherence.Drafts
import PageBlocks.Proofs.Progress.Calls

/-!
# Tree, registry, open blocks and captures agree

Preparing a page makes its site go a course of single steps, and each step leaves all pages in order
(`orderly_of_step`), the pages of base templates and of included ones among them. So at every point
of the run, the open blocks of a page match its captures and stand in its registry, and the blocks
of the registry form a tree under the root (`InOrder`). Blocks keep what they are from one point to
the next (`Grown`).

Names that are no texts are left out: a number that does not equal itself is registered anew at each
declaration.
-/

set_option autoImplicit false

namespace PageBlocks.Coherence

open PageBlocks.Cache PageBlocks.Outline PageBlocks.Progress PageBlocks.Running PageBlocks.Site

/-! ## Steps -/

/-- Outlines later on: each of them is still there and has grown. -/
def Grown (w w' : World) : Prop :=
  ∀ (n : Nat) (o : Outline), w.outlines[n]? = some o → ∃ o', w'.outlines[n]? = some o' ∧ Grows o o'

/-- Whether all blocks of a site are named by texts. -/
def AllTextNamed (w : World) : Prop :=
  ∀ (n : Nat) (o : Outline), w.outlines[n]? = some o → TextNamed o

/-- The open blocks and the captures of a page agree with its outline. -/
def IsDrafted (outlines : Array Outline) (page : Page) : Prop :=
  ∃ o, outlines[page.outline]? = some o ∧ Agrees o page.stack page.captures

/-- A site whose outlines are coherent and whose pages agree with them. -/
structure Orderly (w : World) : Prop where
  outlines : ∀ (n : Nat) (o : Outline), w.outlines[n]? = some o → Coherent o
  pages : ∀ (p : Nat) (page : Page), w.pages[p]? = some page → IsDrafted w.outlines page

section Steps

variable {w w' w'' : World}

theorem Grown.refl (w : World) : Grown w w := fun _ o h => ⟨o, h, Grows.refl o⟩

theorem Grown.trans (h : Grown w w') (h' : Grown w' w'') : Grown w w'' := by
  intro n o hOutline
  obtain ⟨o₁, hOutline₁, hGrows₁⟩ := h n o hOutline
  obtain ⟨o₂, hOutline₂, hGrows₂⟩ := h' n o₁ hOutline₁
  exact ⟨o₂, hOutline₂, hGrows₁.trans hGrows₂⟩

theorem Grown.allTextNamed (h : Grown w w') (hNamed : AllTextNamed w') : AllTextNamed w := by
  intro n o hOutline
  obtain ⟨o', hOutline', hGrows⟩ := h n o hOutline
  exact hGrows.textNamed (hNamed n o' hOutline')

theorem grown_of_eq (h : w'.outlines = w.outlines) : Grown w w' := by
  intro n o hOutline
  exact ⟨o, by rw [h, hOutline], Grows.refl o⟩

theorem IsDrafted.grow {page : Page} (h : IsDrafted w.outlines page) (hGrown : Grown w w') :
    IsDrafted w'.outlines page := by
  obtain ⟨o, hOutline, hAgrees⟩ := h
  obtain ⟨o', hOutline', hGrows⟩ := hGrown _ o hOutline
  exact ⟨o', hOutline', hAgrees.grow hGrows⟩

/-- Replacing the outline of a draft that moved on. -/
theorem grown_of_moved {n : Nat} {o : Outline} {page : Page} {d : Draft}
    (hOutline : w.outlines[n]? = some o) (hMoved : Moved (draftOf page o) d)
    (hAfter : w'.outlines = w.outlines.modify n fun _ => d.outline) : Grown w w' := by
  intro m old hOld
  rw [hAfter, Array.getElem?_modify, hOld]
  split
  · rename_i hSame
    rw [← hSame, hOutline] at hOld
    cases hOld
    exact ⟨d.outline, rfl, (onward_of_moved hMoved).grows⟩
  · exact ⟨old, rfl, Grows.refl old⟩

/-- Outlines grow with each step. -/
theorem grown_of_step (h : Step w w') : Grown w w' := by
  cases h with
  | aside _ _ hOutlines => exact grown_of_eq hOutlines
  | revise _ _ => exact grown_of_eq rfl
  | draft _ hOutline hMoved => exact grown_of_moved hOutline hMoved rfl
  | push _ _ owner =>
    exact fun n o hOutline => ⟨o, getElem?_push_of_eq_some hOutline _, Grows.refl o⟩
  | adopt _ _ _ => exact grown_of_eq rfl

theorem grown_of_course (h : Course w w') : Grown w w' := by
  induction h with
  | refl => exact Grown.refl w
  | tail _ hStep ih => exact ih.trans (grown_of_step hStep)

/-- Pages agree with their outlines if the page that was replaced does. -/
theorem isDrafted_of_modify {p : Nat} {f : Page → Page} {outlines : Array Outline}
    (hPages : ∀ (q : Nat) (page : Page), w.pages[q]? = some page → IsDrafted outlines page)
    (hNew : ∀ page, w.pages[p]? = some page → IsDrafted outlines (f page)) :
    ∀ (q : Nat) (page : Page), (w.pages.modify p f)[q]? = some page → IsDrafted outlines page := by
  intro q page hPage
  rw [Array.getElem?_modify] at hPage
  split at hPage
  · rename_i hSame
    obtain ⟨old, hOld, rfl⟩ := Option.map_eq_some_iff.mp hPage
    exact hNew old (hSame ▸ hOld)
  · exact hPages q page hPage

/-- A page in which no block is open agrees with every coherent outline. -/
theorem agrees_fresh {o : Outline} (h : Coherent o) : Agrees o [Outline.root] [Capture.empty] := by
  refine ⟨rfl, rfl, fun i hMem => ?_⟩
  obtain ⟨b, hBlock, -⟩ := h.root
  obtain rfl := List.mem_singleton.mp hMem
  exact ⟨b, hBlock, h.registered _ b hBlock⟩

theorem isDrafted_new {outlines : Array Outline} {page : Page}
    (hOutline : page.outline = outlines.size)
    (hStack : page.stack = [Outline.root]) (hCaptures : page.captures = [Capture.empty])
    (owner : String) : IsDrafted (outlines.push (Outline.start owner)) page := by
  refine ⟨Outline.start owner, ?_, ?_⟩
  · rw [hOutline]
    exact Array.getElem?_push_size
  · rw [hStack, hCaptures]
    exact agrees_fresh (coherent_start owner)

/-- A site in order is so with one more page and an outline of its own for it. -/
theorem Orderly.push (h : Orderly w) {page : Page} (hOutline : page.outline = w.outlines.size)
    (hStack : page.stack = [Outline.root]) (hCaptures : page.captures = [Capture.empty])
    (owner : String) :
    Orderly { w with
      pages := w.pages.push page
      outlines := w.outlines.push (Outline.start owner) } := by
  have hGrown : Grown w { w with
      pages := w.pages.push page
      outlines := w.outlines.push (Outline.start owner) } :=
    fun n o hOld => ⟨o, getElem?_push_of_eq_some hOld _, Grows.refl o⟩
  refine ⟨fun n o hOld => ?_, fun p other hOther => ?_⟩
  · rw [Array.getElem?_push] at hOld
    split at hOld
    · cases hOld
      exact coherent_start owner
    · exact h.outlines n o hOld
  · rw [Array.getElem?_push] at hOther
    split at hOther
    · cases hOther
      exact isDrafted_new hOutline hStack hCaptures owner
    · exact (h.pages p other hOther).grow hGrown

/-- A site in order is so after each step that names blocks by texts. -/
theorem orderly_of_step (h : Step w w') (hOrderly : Orderly w) (hNamed : AllTextNamed w') :
    Orderly w' := by
  have hGrown := grown_of_step h
  have hKept : ∀ (p : Nat) (page : Page), w.pages[p]? = some page → IsDrafted w'.outlines page :=
    fun p page hPage => (hOrderly.pages p page hPage).grow hGrown
  cases h with
  | aside _ hPages hOutlines =>
    refine ⟨?_, ?_⟩
    · rw [hOutlines]
      exact hOrderly.outlines
    · rw [hPages]
      exact hKept
  | revise p hSame =>
    refine ⟨hOrderly.outlines, isDrafted_of_modify hKept fun page hPage => ?_⟩
    obtain ⟨o, hOutline, hAgrees⟩ := hKept p page hPage
    obtain ⟨-, hNumber, hStack, hCaptures⟩ := hSame page
    refine ⟨o, by rw [hNumber, hOutline], ?_⟩
    rw [hStack, hCaptures]
    exact hAgrees
  | @draft p page o d hPage hOutline hMoved =>
    have hHere : (w.outlines.modify page.outline fun _ => d.outline)[page.outline]?
        = some d.outline := by
      rw [Array.getElem?_modify, if_pos rfl, hOutline]
      rfl
    obtain ⟨found, hFound, hAgrees⟩ := hOrderly.pages p page hPage
    rw [hOutline] at hFound
    cases hFound
    have hAfter := (onward_of_moved hMoved).order (hOrderly.outlines _ o hOutline) hAgrees
      (hNamed _ d.outline hHere)
    refine ⟨fun n other hOther => ?_, isDrafted_of_modify hKept fun old hOld => ?_⟩
    · rw [Array.getElem?_modify] at hOther
      split at hOther
      · obtain ⟨-, -, rfl⟩ := Option.map_eq_some_iff.mp hOther
        exact hAfter.1
      · exact hOrderly.outlines n other hOther
    · rw [hPage] at hOld
      cases hOld
      exact ⟨d.outline, hHere, hAfter.2⟩
  | push _ hMade owner => exact hOrderly.push hMade.outline hMade.stack hMade.captures owner
  | @adopt p base prepared f hBase hAdopts =>
    refine ⟨hOrderly.outlines, isDrafted_of_modify hKept fun page _ => ?_⟩
    obtain ⟨-, hNumber, hStack, hCaptures⟩ := hAdopts page
    obtain ⟨o, hOutline, -⟩ := hKept base prepared hBase
    refine ⟨o, by rw [hNumber, hOutline], ?_⟩
    rw [hStack, hCaptures]
    exact agrees_fresh (hOrderly.outlines _ o hOutline)

/-- So it is at the end of a course. -/
theorem orderly_of_course (h : Course w w') (hOrderly : Orderly w) (hNamed : AllTextNamed w') :
    Orderly w' := by
  induction h with
  | refl => exact hOrderly
  | tail _ hStep ih =>
    have hBefore := (grown_of_step hStep).allTextNamed hNamed
    exact orderly_of_step hStep (ih hBefore) hNamed

end Steps

/-! ## Runs -/

/-- A page whose open blocks, captures, registry and tree of blocks agree. -/
structure InOrder (page : Page) (o : Outline) : Prop where
  /-- Every open block has a capture. -/
  lengths : page.stack.length = page.captures.length
  /-- The outermost open block is the root, so there is one. -/
  bottom : page.stack.getLast? = some Outline.root
  /-- An open block is the one that is registered under its name. -/
  held : ∀ i ∈ page.stack, ∃ b, o.block? i = some b ∧ o.find? b.name = some i
  /-- From parents to children, a block is reached from the root in one way only, -/
  once : (o.walkFrom (o.blocks.length + 1) Outline.root).Nodup
  /-- and it is reached if and only if it is registered. -/
  reached : ∀ i, i ∈ o.walkFrom (o.blocks.length + 1) Outline.root ↔ ∃ name, (name, i) ∈ o.registry
  /-- A block names the one as its parent that has it as a child. -/
  parents : ∀ i b, o.block? i = some b → ∀ q, b.parent = some q ↔ i ∈ o.childrenOf q
  /-- No block lies below itself. -/
  acyclic : ∀ i, ¬ Relation.TransGen (fun i j => j ∈ o.childrenOf i) i i
  /-- Closing a block never misses a capture. -/
  closes : (Draft.close.run (draftOf page o)).1 ≠ .error (.host .noCapture)
  /-- Rendering from parents to children comes to an end: its recursion has one solution. -/
  descends : WellFounded fun j i => j ∈ o.childrenOf i
  renders : ∀ (memo : Option Memo) (render : Nat → VaultM String),
    (∀ i, render i = renderStep memo o render i) ↔ render = o.render memo

section Runs

variable {w w' : World} {page : Page} {o : Outline}

theorem not_transGen_childrenOf (h : o.IsForest) (i : Nat) :
    ¬ Relation.TransGen (fun i j => j ∈ o.childrenOf i) i i := by
  have hLt : ∀ {j k}, Relation.TransGen (fun i j => j ∈ o.childrenOf i) j k → j < k := by
    intro j k hBelow
    induction hBelow with
    | single hChild =>
      obtain ⟨b, hBlock, hMem⟩ := mem_childrenOf.mp hChild
      exact (h hBlock hMem).1
    | tail _ hChild ih =>
      obtain ⟨b, hBlock, hMem⟩ := mem_childrenOf.mp hChild
      exact Nat.lt_trans ih (h hBlock hMem).1
  exact fun hAgain => Nat.lt_irrefl i (hLt hAgain)

theorem Coherent.parent_iff (h : Coherent o) {i : Nat} {b : Block} (hBlock : o.block? i = some b)
    (q : Nat) : b.parent = some q ↔ i ∈ o.childrenOf q := by
  constructor
  · intro hUp
    have hNe : i ≠ Outline.root := by
      rintro rfl
      obtain ⟨root, hRoot, -, hTop⟩ := h.root
      rw [hBlock] at hRoot
      cases hRoot
      rw [hTop] at hUp
      cases hUp
    obtain ⟨r, above, hParent, hAbove, hMem⟩ := h.parent i b hBlock hNe
    rw [hUp] at hParent
    cases hParent
    exact mem_childrenOf.mpr ⟨above, hAbove, hMem⟩
  · intro hChild
    obtain ⟨above, hAbove, hMem⟩ := mem_childrenOf.mp hChild
    obtain ⟨-, c, hc, hUp⟩ := h.forest hAbove hMem
    rw [hBlock] at hc
    cases hc
    exact hUp

theorem inOrder_of_agrees (h : Coherent o) (hAgrees : Agrees o page.stack page.captures) :
    InOrder page o where
  lengths := hAgrees.lengths
  bottom := hAgrees.root
  held := hAgrees.held
  once := h.walk.1
  reached := h.walk.2
  parents _ _ hBlock := h.parent_iff hBlock
  acyclic := not_transGen_childrenOf h.forest
  closes hFails := by
    rcases close_fault (d := draftOf page o) hAgrees hFails with ⟨-, hFault⟩ | ⟨-, hFault⟩
    · cases hFault
    · cases hFault
  descends := wellFounded_childrenOf h.forest
  renders memo render := by
    refine ⟨fun hRender => render_unique h.forest hRender, ?_⟩
    rintro rfl
    exact render_eq h.forest memo

theorem Orderly.inOrder (h : Orderly w) {p : Nat} (hPage : w.pages[p]? = some page) :
    ∃ o, w.outlines[page.outline]? = some o ∧ InOrder page o := by
  obtain ⟨o, hOutline, hAgrees⟩ := h.pages p page hPage
  exact ⟨o, hOutline, inOrder_of_agrees (h.outlines _ o hOutline) hAgrees⟩

/-- A site without pages is in order. -/
theorem orderly_of_empty (hPages : w.pages = #[]) (hOutlines : w.outlines = #[]) : Orderly w := by
  refine ⟨fun n o hOutline => ?_, fun p page hPage => ?_⟩
  · rw [hOutlines] at hOutline
    cases hOutline
  · rw [hPages] at hPage
    cases hPage

/-- A page that was just made is in order, and so are the others. -/
theorem Orderly.newPage (h : Orderly w) {place : Place} {vars : Bindings} {context : Context}
    {chain : List Place} {p : Nat} (hNew : (newPage place vars context chain).run w = (.ok p, w'))
    (hPages : ∀ (q : Nat) (page : Page), w.pages[q]? = some page →
      AsksNothing page.context)
    (hContext : AsksNothing context) :
    Orderly w' ∧ Kept unrestricted w' w' ∧ Fresh p w' := by
  obtain ⟨id, -, rfl, rfl⟩ := run_newPage_eq_ok hNew
  have hLast : w.outlines.size < (w.outlines.push (Outline.start id)).size := by
    rw [Array.size_push]
    exact Nat.lt_succ_self _
  refine ⟨h.push rfl rfl rfl id, Kept.refl trivial fun q page hPage => ?_,
    ⟨_, Array.getElem?_push_size, rfl⟩⟩
  rw [Array.getElem?_push] at hPage
  split at hPage
  · cases hPage
    exact ⟨hContext, fun _ _ => ⟨rfl, rfl⟩, hLast⟩
  · obtain ⟨o, hOutline, -⟩ := h.pages q page hPage
    have hBound := (Array.getElem?_eq_some_iff.mp hOutline).1
    exact ⟨hPages q page hPage, fun _ _ => ⟨rfl, rfl⟩, Nat.lt_trans hBound hLast⟩

/-- At every point of the run of a page's body, all pages are in order, and the blocks that are
there stay what they are. -/
theorem run_stays_in_order {w₁ : World} {place : Place} {vars : Bindings} {context : Context}
    {chain : List Place} {p depth : Nat} {result : Except Fault Unit} (hOrderly : Orderly w)
    (hPages : ∀ (q : Nat) (page : Page), w.pages[q]? = some page →
      AsksNothing page.context)
    (hContext : AsksNothing context)
    (hNew : (newPage place vars context chain).run w = (.ok p, w₁))
    (hRun : (prepareFrom depth p).run w₁ = (result, w')) (hNamed : AllTextNamed w') :
    Course w₁ w' ∧ ∀ v, Course w₁ v → Course v w' →
      (∀ (q : Nat) (page : Page), v.pages[q]? = some page →
        ∃ o, v.outlines[page.outline]? = some o ∧ InOrder page o)
      ∧ Grown v w' := by
  obtain ⟨hStart, hKept, hFresh⟩ := hOrderly.newPage hNew hPages hContext
  have hEnds := prepares_prepareFrom depth w₁ w₁ p hKept hFresh
  have hCourse : Course w₁ w' := by
    cases result with
    | ok _ => exact (hEnds.of_run hRun).course
    | error fault => exact (hEnds.of_run_error hRun).course
  refine ⟨hCourse, fun v hBefore hAfter => ?_⟩
  have hGrown := grown_of_course hAfter
  have hThere := orderly_of_course hBefore hStart (hGrown.allTextNamed hNamed)
  exact ⟨fun q page hPage => hThere.inOrder hPage, hGrown⟩

/-- A site where a page extends another one while it has a block open, and includes a third one. -/
def plaza : World where
  files := [
    (["base"], .items [.emit (.call (.name "begin") [.literal (.text "main")] []), .text "Base",
      .emit (.call (.name "begin") [.literal (.text "inner")] []),
      .emit (.call (.name "end") [] []), .emit (.call (.name "end") [] [])]),
    (["page"], .items [.emit (.call (.name "begin") [.literal (.text "lost")] []),
      .emit (.call (.name "extend") [.literal (.text "base")] []),
      .emit (.call (.name "append") [.literal (.text "main")] []),
      .emit (.call (.name "incl") [.literal (.text "note")] []),
      .emit (.call (.name "end") [] [])]),
    (["note"], .items [.text "Note"])]
  vault := { now := ⟨0⟩ }
  settings := startSettings { paths := [Path.absolute []] } .script defaultLifetime

theorem asksNothing_plaza : AsksNothing plaza.settings := by
  intro name r hFound
  have hAll : (plaza.settings.directives.all fun entry => unrestricted.allows entry.2) = true := rfl
  have hOne := List.all_eq_true.mp hAll _ (Table.mem_of_get?_eq_some hFound)
  cases hOne

/-- Whether the name of a block is a text. -/
def isTextNamed (b : Block) : Bool :=
  match b.name with
  | .text _ => true
  | _ => false

theorem allTextNamed_of_all
    (h : (w.outlines.toList.all fun o => o.blocks.all isTextNamed) = true) : AllTextNamed w := by
  intro n o hOutline i b hBlock
  have hOne := List.all_eq_true.mp h o (Array.mem_toList_iff.mpr (Array.mem_of_getElem? hOutline))
  have hName := List.all_eq_true.mp hOne b (List.mem_of_getElem? hBlock)
  cases hText : b.name with
  | text s => exact ⟨s, rfl⟩
  | _ =>
    rw [isTextNamed, hText] at hName
    cases hName

/-- The page of that site with everything that it extends and includes. -/
theorem plaza_stays_in_order :
    ∃ w₁ result w', (newPage ["page"] [] plaza.settings []).run plaza = (.ok 0, w₁)
      ∧ (prepareFrom 3 0).run w₁ = (result, w') ∧ result = .ok () ∧ AllTextNamed w'
      ∧ Course w₁ w' ∧ ∀ v, Course w₁ v → Course v w' →
        (∀ (q : Nat) (page : Page), v.pages[q]? = some page →
          ∃ o, v.outlines[page.outline]? = some o ∧ InOrder page o)
        ∧ Grown v w' := by
  have hMade : ((newPage ["page"] [] plaza.settings []).run plaza).1.toOption = some 0 := by
    decide +kernel
  have hDone : (((newPage ["page"] [] plaza.settings []).run plaza).2
      |> (prepareFrom 3 0).run).1.toOption = some () := by decide +kernel
  have hNames : ((((newPage ["page"] [] plaza.settings []).run plaza).2
      |> (prepareFrom 3 0).run).2.outlines.toList.all fun o =>
        o.blocks.all isTextNamed) = true := by decide +kernel
  rcases hNew : (newPage ["page"] [] plaza.settings []).run plaza with ⟨fault | p, w₁⟩
  · rw [hNew] at hMade
    cases hMade
  · rw [hNew] at hMade hDone hNames
    obtain rfl : p = 0 := Option.some.inj hMade
    rcases hRun : (prepareFrom 3 0).run w₁ with ⟨fault | _, w'⟩
    · dsimp only at hDone
      rw [hRun] at hDone
      cases hDone
    · dsimp only at hNames
      rw [hRun] at hNames
      have hNamed := allTextNamed_of_all hNames
      have hNone : ∀ (q : Nat) (page : Page), plaza.pages[q]? = some page →
          AsksNothing page.context := by
        intro q page hPage
        have hEmpty : plaza.pages = #[] := rfl
        rw [hEmpty] at hPage
        cases hPage
      have hInOrder := run_stays_in_order (orderly_of_empty rfl rfl) hNone asksNothing_plaza hNew
        hRun hNamed
      exact ⟨w₁, .ok (), w', rfl, hRun, rfl, hNamed, hInOrder⟩

end Runs

end PageBlocks.Coherence
