import PageBlocks.Proofs.Running
import PageBlocks.Proofs.Tables
import PageBlocks.Site.Run

/-!
# Reading pages and their bodies

The steps of a site that change nothing but the caches at most: passing on a fault, looking up a
page, the place of a template and its body, and working on the caches. Where a template is depends
on the files, the directories and its name alone (`placeAt`), and the body of a page on the files
and on the place of its template (`bodyAt`).
-/

set_option autoImplicit false

namespace PageBlocks.Site

open PageBlocks.Body PageBlocks.Cache PageBlocks.Running

theorem run_check {α : Type} {x : Except Fault α} {a : α} (h : x = .ok a) (w : World) :
    (check x).run w = (.ok a, w) := by
  rw [h]
  rfl

theorem run_check_error {α : Type} {x : Except Fault α} {fault : Fault} (h : x = .error fault)
    (w : World) : (check x).run w = (.error fault, w) := by
  rw [h]
  rfl

theorem eq_of_run_check {α : Type} {x : Except Fault α} {a : α} {w w' : World}
    (hRun : (check x).run w = (.ok a, w')) : x = .ok a ∧ w = w' := by
  cases hFound : x with
  | error fault =>
    rw [run_check_error hFound] at hRun
    cases hRun
  | ok found =>
    rw [run_check hFound] at hRun
    cases hRun
    exact ⟨rfl, rfl⟩

theorem run_page {w : World} {p : Nat} {page : Page} (h : w.pages[p]? = some page) :
    (Site.page p).run w = (.ok page, w) := by
  unfold Site.page
  rw [run_bind_of_ok (run_get w), h]
  rfl

theorem run_page_error {w : World} {p : Nat} (h : w.pages[p]? = none) :
    (Site.page p).run w = (.error unknownNumber, w) := by
  unfold Site.page
  rw [run_bind_of_ok (run_get w), h]
  rfl

theorem run_outlineOf {w : World} {p : Nat} {page : Page} {o : Outline}
    (h : w.pages[p]? = some page) (hOutline : w.outlines[page.outline]? = some o) :
    (outlineOf p).run w = (.ok o, w) := by
  unfold outlineOf
  rw [run_bind_of_ok (run_page h), run_bind_of_ok (run_get w), hOutline]
  rfl

/-- The place of the template of a name. -/
def placeAt (files : FileTree Source) (locator : Locator) (name : Value) (extra : List Path) :
    Except Fault Place :=
  match name with
  | .text s => locator.locate files s extra
  | .bytes _ => .error (.host .type)
  | v => .error (Fault.withoutOperation v)

/-- Looking for a template changes nothing. -/
theorem run_locate (locator : Locator) (name : Value) (extra : List Path) (w : World) :
    (locate locator name extra).run w = (placeAt w.files locator name extra, w) := by
  have hCheck : ∀ x : Except Fault Place, (check x).run w = (x, w) := by
    intro x
    cases x <;> rfl
  cases name with
  | text s => exact (run_bind_of_ok (run_get w) _).trans (hCheck _)
  | _ => rfl

/-- The items of the body of a template. -/
def bodyAt (files : FileTree Source) (place : Place) : Except Fault (List Item) :=
  match files.get? place with
  | some (.items items) => .ok items
  | some (.text s) =>
    Braces.read (.object ("TemplateReference " ++ Text.Quoted.text (Path.absolute place).print)) s
  | none => .error (.templateNotFound (.text (Path.absolute place).print) [])

/-- What holds of every body of a site of items holds of whatever body is looked up. -/
theorem forall_bodyAt_of_items {files : FileTree Source} {P : List Item → Prop}
    (h : ∀ entry ∈ files, ∃ items, entry.2 = .items items ∧ P items) :
    ∀ place items, bodyAt files place = .ok items → P items := by
  intro place items hBody
  unfold bodyAt at hBody
  split at hBody
  · rename_i found hFound
    cases hBody
    obtain ⟨_, hItems, hHolds⟩ := h _ (Table.mem_of_get?_eq_some hFound)
    cases hItems
    exact hHolds
  · rename_i found hFound
    obtain ⟨_, hItems, -⟩ := h _ (Table.mem_of_get?_eq_some hFound)
    cases hItems
  · cases hBody

/-- Looking up the body of a page changes nothing. -/
theorem run_bodyOf (page : Page) (w : World) :
    (bodyOf page).run w = (bodyAt w.files page.place, w) := by
  unfold bodyAt bodyOf
  rw [run_bind_of_ok (run_get w)]
  cases w.files.get? page.place with
  | none => rfl
  | some source =>
    cases source with
    | items found => rfl
    | text s =>
      have hOwn : ownValue page
          = .object ("TemplateReference " ++ Text.Quoted.text (Path.absolute page.place).print) :=
        rfl
      simp only [hOwn]
      cases hRead : Braces.read (.object
        ("TemplateReference " ++ Text.Quoted.text (Path.absolute page.place).print)) s with
      | ok items => exact run_check rfl w
      | error fault => exact run_check_error rfl w

/-- Calling a directive of a page carries it out. -/
theorem run_call_directive {prepare : Nat → SiteM Unit} {w : World} {p : Nat} {page : Page}
    {name : String} {directive : Directive} (hPage : w.pages[p]? = some page)
    (hFound : page.context.directives.get? name = some directive) (arguments : List Value)
    (named : List (String × Value)) :
    (call prepare (.directive p name) arguments named).run w
      = (callDirective prepare p directive arguments (Table.ofBindings named)).run w := by
  unfold call
  dsimp only
  rw [run_bind_of_ok (run_page hPage), hFound]

/-- A run on the caches changes nothing else of the site. -/
theorem ends_onVault {α : Type} {x : VaultM α} {w : World} {well : α → Vault → Prop}
    {badly : Vault → Prop} (h : Ends x w.vault well badly) :
    Ends (onVault x) w (fun a w' => ∃ v, well a v ∧ w' = { w with vault := v })
      fun w' => ∃ v, badly v ∧ w' = { w with vault := v } := by
  unfold onVault
  refine ends_get_bind ?_
  rcases hRun : x.run w.vault with ⟨fault | a, v⟩
  · exact ends_set_bind (ends_of_run_error (run_check_error rfl _) ⟨v, h.of_run_error hRun, rfl⟩)
  · exact ends_set_bind (ends_of_run (run_check rfl _) ⟨v, h.of_run hRun, rfl⟩)

/-- How the items of a page's body are run. -/
def handlerOf (prepare : Nat → SiteM Unit) (p : Nat) (page : Page) : Handler SiteM where
  dialect := page.context.dialect
  call := call prepare
  write := fun s => onDraft p (Draft.write (.text s))

end PageBlocks.Site
