import Mathlib.Logic.Relation
import PageBlocks.Proofs.Bodies

/-!
# Steps of a run

What running the body of a page does to the pages of a site, one change at a time (`Step`): a page
gets other variables or another cache mode, its draft moves on (`Moved`), a page is made for a page
that includes or extends another template, or a page goes on with the outline of a page that was
prepared for it. Everything else that a body can do leaves the pages and the files alone. A course
is any number of such steps (`Course`).

Along a course the files stay, and so do the places, the chains, the contexts and the identities of
the pages (`Course.files`, `Course.same`).
-/

set_option autoImplicit false

namespace PageBlocks.Progress

open PageBlocks.Site

/-- A draft and what a step of it makes of it, whether the step fails or not. -/
inductive Moved (d : Draft) : Draft → Prop
  | openBlock (name : Value) (mode : ApplyMode) : Moved d ((Draft.openBlock name mode).run d).2
  | addBlock (b : Block) (mode : ApplyMode) (hNew : b.children = []) :
    Moved d ((Draft.addBlock b mode).run d).2
  | write (v : Value) : Moved d ((Draft.write v).run d).2
  | close : Moved d (Draft.close.run d).2
  | finish : Moved d (Draft.finish.run d).2
  | markRoot : Moved d ((Draft.markExtended Outline.root).run d).2
  /-- Captures are thrown away only where no block is open. -/
  | resetCaptures (hClosed : d.stack = [Outline.root]) : Moved d (Draft.resetCaptures.run d).2

/-- A page that was changed in nothing that tells which page it is. -/
structure SamePage (page page' : Page) : Prop where
  place : page'.place = page.place
  chain : page'.chain = page.chain
  context : page'.context = page.context
  id : page'.id = page.id

/-- A page whose outline, open blocks and captures stayed as well. -/
structure SameDraft (page page' : Page) : Prop extends SamePage page page' where
  outline : page'.outline = page.outline
  stack : page'.stack = page.stack
  captures : page'.captures = page.captures

/-- A page that goes on with the outline of another one. -/
structure Adopts (prepared page page' : Page) : Prop extends SamePage page page' where
  outline : page'.outline = prepared.outline
  stack : page'.stack = [Outline.root]
  captures : page'.captures = [Capture.empty]

/-- A page as it is made for another one: it includes the new page, or extends it. -/
structure MadeFor (w : World) (parent page : Page) : Prop where
  file : w.files.isFileAt page.place = true
  context : page.context = parent.context
  chain : page.chain = []
    ∨ page.chain = parent.chain ++ [parent.place] ∧ page.place ∉ parent.chain ++ [parent.place]
  outline : page.outline = w.outlines.size
  stack : page.stack = [Outline.root]
  captures : page.captures = [Capture.empty]

/-- A change that the body of a page makes to the pages of a site. -/
inductive Step (w : World) : World → Prop
  | aside {w' : World} (hFiles : w'.files = w.files) (hPages : w'.pages = w.pages)
    (hOutlines : w'.outlines = w.outlines) : Step w w'
  | revise (p : Nat) {f : Page → Page} (hSame : ∀ page, SameDraft page (f page)) :
    Step w { w with pages := w.pages.modify p f }
  | draft {p : Nat} {page : Page} {o : Outline} {d : Draft} (hPage : w.pages[p]? = some page)
    (hOutline : w.outlines[page.outline]? = some o) (hMoved : Moved (draftOf page o) d) :
    Step w { w with
      pages := w.pages.modify p fun page => { page with stack := d.stack, captures := d.captures }
      outlines := w.outlines.modify page.outline fun _ => d.outline }
  | push {q : Nat} {parent page : Page} (hParent : w.pages[q]? = some parent)
    (hMade : MadeFor w parent page) (owner : String) :
    Step w { w with
      pages := w.pages.push page
      outlines := w.outlines.push (Outline.start owner) }
  | adopt (p : Nat) {base : Nat} {prepared : Page} {f : Page → Page}
    (hBase : w.pages[base]? = some prepared) (hAdopts : ∀ page, Adopts prepared page (f page)) :
    Step w { w with pages := w.pages.modify p f }

/-- Any number of changes. -/
abbrev Course : World → World → Prop := Relation.ReflTransGen Step

section SamePage

theorem SamePage.refl (page : Page) : SamePage page page := ⟨rfl, rfl, rfl, rfl⟩

theorem SamePage.trans {a b c : Page} (h : SamePage a b) (h' : SamePage b c) : SamePage a c :=
  ⟨h'.place.trans h.place, h'.chain.trans h.chain, h'.context.trans h.context, h'.id.trans h.id⟩

theorem SameDraft.refl (page : Page) : SameDraft page page := ⟨SamePage.refl page, rfl, rfl, rfl⟩

end SamePage

section Steps

variable {w w' : World} {p : Nat} {page : Page}

theorem exists_same_of_modify {f : Page → Page} (hSame : ∀ page, SamePage page (f page)) (q : Nat)
    (h : w.pages[p]? = some page) :
    ∃ page', (w.pages.modify q f)[p]? = some page' ∧ SamePage page page' := by
  rw [Array.getElem?_modify, h]
  split
  · exact ⟨f page, rfl, hSame page⟩
  · exact ⟨page, rfl, SamePage.refl page⟩

theorem getElem?_push_of_eq_some {α : Type} {xs : Array α} {i : Nat} {x : α} (h : xs[i]? = some x)
    (y : α) : (xs.push y)[i]? = some x := by
  have hBound := (Array.getElem?_eq_some_iff.mp h).1
  rw [Array.getElem?_push, if_neg (Nat.ne_of_lt hBound), h]

theorem Step.files (h : Step w w') : w'.files = w.files := by
  cases h with
  | aside hFiles _ _ => exact hFiles
  | revise _ _ => rfl
  | draft _ _ _ => rfl
  | push _ _ _ => rfl
  | adopt _ _ _ => rfl

/-- A page stays what it is. -/
theorem Step.same (h : Step w w') (hPage : w.pages[p]? = some page) :
    ∃ page', w'.pages[p]? = some page' ∧ SamePage page page' := by
  cases h with
  | aside _ hPages _ =>
    rw [hPages]
    exact ⟨page, hPage, SamePage.refl page⟩
  | revise q hSame => exact exists_same_of_modify (fun page => (hSame page).toSamePage) q hPage
  | draft hDraft _ _ =>
    refine exists_same_of_modify (fun old => ?_) _ hPage
    exact ⟨rfl, rfl, rfl, rfl⟩
  | push _ _ owner => exact ⟨page, getElem?_push_of_eq_some hPage _, SamePage.refl page⟩
  | adopt q _ hAdopts => exact exists_same_of_modify (fun page => (hAdopts page).toSamePage) q hPage

theorem Course.files (h : Course w w') : w'.files = w.files := by
  induction h with
  | refl => rfl
  | tail _ hStep ih => exact hStep.files.trans ih

theorem Course.same (h : Course w w') (hPage : w.pages[p]? = some page) :
    ∃ page', w'.pages[p]? = some page' ∧ SamePage page page' := by
  induction h with
  | refl => exact ⟨page, hPage, SamePage.refl page⟩
  | tail _ hStep ih =>
    obtain ⟨page₁, hPage₁, hSame₁⟩ := ih
    obtain ⟨page₂, hPage₂, hSame₂⟩ := hStep.same hPage₁
    exact ⟨page₂, hPage₂, hSame₁.trans hSame₂⟩

end Steps

end PageBlocks.Progress
