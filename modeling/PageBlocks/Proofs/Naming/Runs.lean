import PageBlocks.Proofs.Coherence.Runs
import PageBlocks.Proofs.Lasting
import PageBlocks.Proofs.Naming.Places

/-!
# Each token names one block

That outlines are named and open blocks are there is an invariant of sites (`invariant_proper`), so
it holds after the run of any body; and since blocks keep their names, owners and identities, it
holds of all outlines at every point of the run (`tokens_name_one_block`). Two blocks of an outline
have unequal names there. They have one text behind their identities if one page owns both and their
names print alike nevertheless, which takes a name that is no text: `number_and_text_share_place`
has a number and a text.
-/

set_option autoImplicit false

namespace PageBlocks.Naming

open PageBlocks.Cache PageBlocks.Coherence PageBlocks.Lasting PageBlocks.Progress
  PageBlocks.Running PageBlocks.Site

/-! ## Sites -/

/-- A page that passes no requests on, has the identity of a page, and whose open blocks are
there. -/
structure Settled (outlines : Array Outline) (page : Page) : Prop where
  context : AsksNothing page.context
  id : Token.isId page.id.toList = true
  stack : ∃ o, outlines[page.outline]? = some o ∧ ∀ i ∈ page.stack, i < o.blocks.length

/-- A site with named outlines and pages that are settled on them. -/
structure Proper (w : World) : Prop where
  outlines : ∀ (n : Nat) (o : Outline), w.outlines[n]? = some o → Named o
  pages : ∀ (p : Nat) (page : Page), w.pages[p]? = some page → Settled w.outlines page

/-- Outlines later on: each of them is still there and has not lost blocks. -/
def Longer (outlines outlines' : Array Outline) : Prop :=
  ∀ (n : Nat) (o : Outline), outlines[n]? = some o →
    ∃ o', outlines'[n]? = some o' ∧ o.blocks.length ≤ o'.blocks.length

section Arrays

variable {α : Type} {P : α → Prop} {xs : Array α}

theorem forall_getElem?_modify {n : Nat} {f : α → α}
    (h : ∀ (i : Nat) (x : α), xs[i]? = some x → P x) (hNew : ∀ x, xs[n]? = some x → P (f x)) :
    ∀ (i : Nat) (x : α), (xs.modify n f)[i]? = some x → P x := by
  intro i x hFound
  rw [Array.getElem?_modify] at hFound
  split at hFound
  · rename_i hHere
    obtain ⟨old, hOld, rfl⟩ := Option.map_eq_some_iff.mp hFound
    exact hNew old (hHere ▸ hOld)
  · exact h i x hFound

theorem forall_getElem?_push {y : α} (h : ∀ (i : Nat) (x : α), xs[i]? = some x → P x)
    (hNew : P y) : ∀ (i : Nat) (x : α), (xs.push y)[i]? = some x → P x := by
  intro i x hFound
  rw [Array.getElem?_push] at hFound
  split at hFound
  · cases hFound
    exact hNew
  · exact h i x hFound

end Arrays

section Sites

variable {w : World} {outlines outlines' : Array Outline} {page page' : Page}

theorem longer_push (o : Outline) : Longer outlines (outlines.push o) :=
  fun _ old h => ⟨old, getElem?_push_of_eq_some h o, Nat.le_refl _⟩

theorem longer_modify {n : Nat} {o o' : Outline} (hOutline : outlines[n]? = some o)
    (hLength : o.blocks.length ≤ o'.blocks.length) :
    Longer outlines (outlines.modify n fun _ => o') := by
  intro m old hOld
  rw [Array.getElem?_modify, hOld]
  split
  · rename_i hSame
    rw [← hSame, hOutline] at hOld
    cases hOld
    exact ⟨o', rfl, hLength⟩
  · exact ⟨old, rfl, Nat.le_refl _⟩

theorem Settled.grow (h : Settled outlines page) (hLonger : Longer outlines outlines') :
    Settled outlines' page := by
  obtain ⟨o, hOutline, hStack⟩ := h.stack
  obtain ⟨o', hOutline', hLength⟩ := hLonger _ o hOutline
  exact ⟨h.context, h.id, o', hOutline', fun i hMem => Nat.lt_of_lt_of_le (hStack i hMem) hLength⟩

/-- A page that was not turned into another one stays settled if its open blocks are there. -/
theorem Settled.same (h : Settled outlines page) (hSame : SamePage page page')
    (hStack : ∃ o, outlines[page'.outline]? = some o ∧ ∀ i ∈ page'.stack, i < o.blocks.length) :
    Settled outlines page' := by
  refine ⟨?_, ?_, hStack⟩
  · rw [hSame.context]
    exact h.context
  · rw [hSame.id]
    exact h.id

/-- A page in which only the root is open is settled on every named outline. -/
theorem exists_root {o : Outline} (hOutline : outlines[page.outline]? = some o) (hNamed : Named o)
    (hStack : page.stack = [Outline.root]) :
    ∃ o, outlines[page.outline]? = some o ∧ ∀ i ∈ page.stack, i < o.blocks.length := by
  refine ⟨o, hOutline, fun i hMem => ?_⟩
  rw [hStack] at hMem
  exact List.mem_singleton.mp hMem ▸ hNamed.root

/-- No change that a body makes to a site ends it. -/
theorem invariant_proper : Invariant Proper := by
  constructor
  case context =>
    intro w p page hProper hPage
    exact (hProper.pages p page hPage).context
  case outline =>
    intro w p page hProper hPage
    obtain ⟨o, hOutline, -⟩ := (hProper.pages p page hPage).stack
    exact ⟨o, hOutline⟩
  case aside =>
    intro w w' hProper hPages hOutlines
    refine ⟨?_, ?_⟩
    · rw [hOutlines]
      exact hProper.outlines
    · rw [hPages, hOutlines]
      exact hProper.pages
  case revise =>
    intro w p f hProper hSame
    refine ⟨hProper.outlines, forall_getElem?_modify hProper.pages fun page hPage => ?_⟩
    have hSettled := hProper.pages p page hPage
    refine hSettled.same (hSame page).toSamePage ?_
    rw [(hSame page).outline, (hSame page).stack]
    exact hSettled.stack
  case draft =>
    intro w p page o d hProper hPage hOutline hDrawn
    have hSettled := hProper.pages p page hPage
    have hSeated : Seated (draftOf page o) := by
      obtain ⟨found, hFound, hStack⟩ := hSettled.stack
      rw [hOutline] at hFound
      cases hFound
      exact ⟨hProper.outlines _ o hOutline, hStack⟩
    have hOnward := onward_of_drawn hSettled.id hSeated hDrawn
    have hLonger := longer_modify hOutline hOnward.bound
    constructor
    case outlines =>
      exact forall_getElem?_modify hProper.outlines fun _ _ => hOnward.seated.outline
    case pages =>
      -- another page may share the outline, and its open blocks are there still
      refine forall_getElem?_modify (fun q other hOther => ?_) fun old hOld => ?_
      · exact (hProper.pages q other hOther).grow hLonger
      · rw [hPage] at hOld
        cases hOld
        refine (hSettled.grow hLonger).same ⟨rfl, rfl, rfl, rfl⟩ ⟨d.outline, ?_, ?_⟩
        · rw [Array.getElem?_modify, if_pos rfl, hOutline]
          rfl
        · exact hOnward.seated.stack
  case push =>
    intro w place vars context id chain hProper hContext hId
    obtain ⟨text, -, rfl, -⟩ := KeyTexts.exists_pageText hId
    have hNamed := named_start (Token.isId_digest text)
    constructor
    case outlines => exact forall_getElem?_push hProper.outlines hNamed
    case pages =>
      refine forall_getElem?_push (fun q other hOther => ?_) ?_
      · exact (hProper.pages q other hOther).grow (longer_push _)
      · exact ⟨hContext, Token.isId_digest text,
          exists_root Array.getElem?_push_size hNamed rfl⟩
  case adopt =>
    intro w p base prepared f hProper hBase hAdopts
    refine ⟨hProper.outlines, forall_getElem?_modify hProper.pages fun page hPage => ?_⟩
    obtain ⟨o, hOutline, -⟩ := (hProper.pages base prepared hBase).stack
    refine (hProper.pages p page hPage).same (hAdopts page).toSamePage ?_
    rw [← (hAdopts page).outline] at hOutline
    exact exists_root hOutline (hProper.outlines _ o ((hAdopts page).outline ▸ hOutline))
      (hAdopts page).stack

/-- A site without pages is proper. -/
theorem proper_of_empty (hPages : w.pages = #[]) (hOutlines : w.outlines = #[]) : Proper w := by
  refine ⟨fun n o hOutline => ?_, fun p page hPage => ?_⟩
  · rw [hOutlines] at hOutline
    cases hOutline
  · rw [hPages] at hPage
    cases hPage

/-- From a proper site on, a run is a course. -/
theorem Proper.kept (h : Proper w) : Kept unrestricted w w := by
  refine Kept.refl trivial fun p page hPage => ?_
  obtain ⟨o, hOutline, -⟩ := (h.pages p page hPage).stack
  exact ⟨(h.pages p page hPage).context, fun _ _ => ⟨rfl, rfl⟩,
    (Array.getElem?_eq_some_iff.mp hOutline).1⟩

end Sites

/-! ## Runs -/

/-- What tells the blocks of an outline apart. -/
structure ToldApart (o : Outline) : Prop where
  /-- The token of a block has the digest of the text of the block. -/
  ids : ∀ b ∈ o.blocks, b.id = Identity.digest (preimage b)
  /-- Two blocks have unequal names. -/
  names : ∀ i j a b, i < j → o.block? i = some a → o.block? j = some b →
    (a.name == b.name) = false
  /-- They have one text if and only if one page owns both and their names print alike. -/
  texts : ∀ i j a b, i < j → o.block? i = some a → o.block? j = some b →
    (preimage a = preimage b ↔ a.owner = b.owner ∧ a.name.print = b.name.print)
  /-- Names that are texts never do. -/
  apart : TextNamed o → TextsApart o
  /-- Outputs get into the places of blocks with the same texts only, -/
  places : DigestsApart o → FillsPlaces o
  /-- and where no two blocks have one text, into the places of their own blocks. -/
  ownPlaces : TextsApart o → DigestsApart o → FillsOwnPlaces o

theorem Distinct.toldApart {o : Outline} (h : Distinct o) : ToldApart o where
  ids b hMem := (h.signed b hMem).id
  names := h.unequal
  texts _ _ _ _ _ ha hb := h.preimage_eq_iff ha hb
  apart := h.textsApart
  places := h.fillsPlaces
  ownPlaces hTexts hDigests := (h.fillsPlaces hDigests).own hTexts

/-- At every point of the run of a page's body, the blocks of each outline have unequal names, and
only names that print alike can make two of them share a place. The site stays proper for what is
run next. -/
theorem tokens_name_one_block {w w₁ w' : World} {place : Place} {vars : Bindings}
    {context : Context} {chain : List Place} {p depth : Nat} {result : Except Fault Unit}
    (hProper : Proper w) (hContext : AsksNothing context)
    (hNew : (newPage place vars context chain).run w = (.ok p, w₁))
    (hRun : (prepareFrom depth p).run w₁ = (result, w')) :
    Proper w' ∧ Course w₁ w' ∧ ∀ v, Course w₁ v → Course v w' →
      ∀ (n : Nat) (o : Outline), v.outlines[n]? = some o → ToldApart o := by
  have hStart : Proper w₁ := by
    have hMade := (upholds_newPage invariant_proper place vars hContext chain).run hProper
    rwa [hNew] at hMade
  have hEnd : Proper w' := by
    have hPrepared := (prepares_prepareFrom invariant_proper depth p).run hStart
    rwa [hRun] at hPrepared
  have hFresh : Fresh p w₁ := by
    obtain ⟨id, -, rfl, rfl⟩ := run_newPage_eq_ok hNew
    exact ⟨_, Array.getElem?_push_size, rfl⟩
  have hCourse : Course w₁ w' := by
    have hEnds := Progress.prepares_prepareFrom depth w₁ w₁ p hStart.kept hFresh
    cases result with
    | ok _ => exact (hEnds.of_run hRun).course
    | error fault => exact (hEnds.of_run_error hRun).course
  refine ⟨hEnd, hCourse, fun v _ hAfter n o hOutline => ?_⟩
  -- blocks keep what they are made of, so that what tells them apart in the end does so before
  obtain ⟨o', hOutline', hGrows⟩ := grown_of_course hAfter n o hOutline
  exact ((hEnd.outlines n o' hOutline').distinct.of_grows hGrows).toldApart

/-! ## Two sites -/

section Sites

variable {α : Type} {x : SiteM α} {w : World}

/-- A run with a result leads somewhere. -/
theorem run_eq_of_toOption {a : α} (h : (x.run w).1.toOption = some a) :
    x.run w = (.ok a, (x.run w).2) :=
  Prod.ext (eq_ok_of_toOption h) rfl

/-- The page that extends another one and includes a third one: as its blocks are named by texts, no
two of them have one text in the end. -/
theorem plaza_tokens_name_one_block :
    ∃ w₁ w', (newPage ["page"] [] plaza.settings []).run plaza = (.ok 0, w₁)
      ∧ (prepareFrom 3 0).run w₁ = (.ok (), w') ∧ Course w₁ w'
      ∧ (∀ v, Course w₁ v → Course v w' →
        ∀ (n : Nat) (o : Outline), v.outlines[n]? = some o → ToldApart o)
      ∧ ∀ (n : Nat) (o : Outline), w'.outlines[n]? = some o →
        TextsApart o ∧ (DigestsApart o → FillsOwnPlaces o) := by
  obtain ⟨w₁, w', hNew, hRun, hNames⟩ :
      ∃ w₁ w', (newPage ["page"] [] plaza.settings []).run plaza = (.ok 0, w₁)
        ∧ (prepareFrom 3 0).run w₁ = (.ok (), w')
        ∧ (w'.outlines.toList.all fun o => o.blocks.all isTextNamed) = true :=
    ⟨_, _, run_eq_of_toOption (by decide +kernel), run_eq_of_toOption (by decide +kernel),
      by decide +kernel⟩
  obtain ⟨-, hCourse, hTold⟩ :=
    tokens_name_one_block (proper_of_empty rfl rfl) asksNothing_plaza hNew hRun
  refine ⟨w₁, w', hNew, hRun, hCourse, hTold, fun n o hOutline => ?_⟩
  have hOne := hTold _ hCourse .refl n o hOutline
  have hTexts := hOne.apart (allTextNamed_of_all hNames n o hOutline)
  exact ⟨hTexts, hOne.ownPlaces hTexts⟩

/-- A page with a block that is named by a number, and one that is named by the same number as a
text. -/
def twins : World where
  files := [(["page"], .items [.text "A",
    .emit (.call (.name "begin") [.literal (.int 1)] []), .text "x",
    .emit (.call (.name "end") [] []), .text "B",
    .emit (.call (.name "begin") [.literal (.text "1")] []), .text "y",
    .emit (.call (.name "end") [] []), .text "C"])]
  vault := { now := ⟨0⟩ }
  settings := startSettings { paths := [Path.absolute []] } .script defaultLifetime

/-- Whether the second and the third block of an outline are registered under unequal names and have
one text. -/
def sharePlace (o : Outline) : Bool :=
  match o.block? 1, o.block? 2 with
  | some a, some b => o.find? a.name = some 1 && o.find? b.name = some 2 && !(a.name == b.name)
      && preimage a = preimage b
  | _, _ => false

/-- In the end the two blocks have unequal names and one text, and the output of the second one
stands in both places. -/
theorem number_and_text_share_place :
    ∃ w₁ w' o a b, (newPage ["page"] [] twins.settings []).run twins = (.ok 0, w₁)
      ∧ (prepareFrom 1 0).run w₁ = (.ok (), w') ∧ w'.outlines[0]? = some o
      ∧ o.block? 1 = some a ∧ o.block? 2 = some b
      ∧ o.find? a.name = some 1 ∧ o.find? b.name = some 2
      ∧ (a.name == b.name) = false ∧ preimage a = preimage b
      ∧ ((renderBlock 0 Outline.root).run w').1.toOption = some "AyByC" := by
  have hNew := run_eq_of_toOption (x := newPage ["page"] [] twins.settings []) (w := twins) (a := 0)
    (by decide +kernel)
  have hRun := run_eq_of_toOption (x := prepareFrom 1 0)
    (w := ((newPage ["page"] [] twins.settings []).run twins).2) (a := ()) (by decide +kernel)
  have hText : ((renderBlock 0 Outline.root).run ((prepareFrom 1 0).run
      ((newPage ["page"] [] twins.settings []).run twins).2).2).1.toOption = some "AyByC" := by
    decide +kernel
  have hShare : (((prepareFrom 1 0).run
      ((newPage ["page"] [] twins.settings []).run twins).2).2.outlines[0]?.any sharePlace)
        = true := by
    decide +kernel
  obtain ⟨o, hOutline, hShare⟩ := (Option.any_eq_true ..).mp hShare
  unfold sharePlace at hShare
  split at hShare
  · rename_i a b ha hb
    simp only [Bool.and_eq_true, decide_eq_true_eq, Bool.not_eq_true'] at hShare
    obtain ⟨⟨⟨hFindA, hFindB⟩, hNames⟩, hTexts⟩ := hShare
    exact ⟨_, _, o, a, b, hNew, hRun, hOutline, ha, hb, hFindA, hFindB, hNames, hTexts, hText⟩
  · cases hShare

end Sites

end PageBlocks.Naming
