import PageBlocks.Bindings
import PageBlocks.Site.World

/-!
# Pages of a site

Making pages, rendering them, and combining them: one page may include the output of another one,
or extend it, which means to let it run first and then go on with its outline. How a page's body is
run is a parameter here.
-/

set_option autoImplicit false

namespace PageBlocks.Site

open PageBlocks.Cache

/-- The fault of using something that was never made. -/
def unknownNumber : Fault := .host .attribute

/-- The page of a number. -/
def page (p : Nat) : SiteM Page := do
  match (← get).pages[p]? with
  | some page => return page
  | none => throw unknownNumber

/-- Replace a page by what a function makes of it. -/
def updatePage (p : Nat) (f : Page → Page) : SiteM Unit :=
  modify fun w => { w with pages := w.pages.modify p f }

/-- The outline of a page. -/
def outlineOf (p : Nat) : SiteM Outline := do
  let page ← page p
  return ((← get).outlines[page.outline]?).getD {}

/-- A page with its outline as a draft. -/
def draftOf (page : Page) (o : Outline) : Draft := ⟨page.path.print, o, page.stack, page.captures⟩

/-- Run a step of a page's draft. -/
def onDraft {α : Type} (p : Nat) (x : DraftM α) : SiteM α := do
  let page ← page p
  let (result, d) := x.run (draftOf page (← outlineOf p))
  modify fun w =>
    { w with
      pages := w.pages.modify p fun page => { page with stack := d.stack, captures := d.captures }
      outlines := w.outlines.modify page.outline fun _ => d.outline }
  check result

/-- Make a page. -/
def newPage (place : Place) (vars : Bindings) (context : Context) (chain : List Place) :
    SiteM Nat := do
  let id ← check (Identity.page (Path.absolute place).print vars)
  let w ← get
  set { w with
    pages := w.pages.push { place, vars, context, id, chain, outline := w.outlines.size }
    outlines := w.outlines.push (Outline.start id) }
  return w.pages.size

/-- The place of a template. -/
def locate (locator : Locator) (name : Value) (extra : List Path) : SiteM Place := do
  match name with
  | .text s => check (locator.locate (← get).files s extra)
  | .bytes _ => throw (.host .type)
  | v => throw (Fault.withoutOperation v)

/-- The place of a template that a page names: the page's own directory is searched too. -/
def locateFrom (page : Page) (name : Value) : SiteM Place :=
  locate page.context.locator name [page.path.parent]

/-- A fresh page for the template of a name, with the variables of a page and further ones. -/
def relatedPage (p : Nat) (name : Value) (vars : Value) : SiteM Nat := do
  let page ← page p
  let place ← locateFrom page name
  let more ← check (Bindings.ofMap vars)
  newPage place (Table.merge page.vars more) page.context []

/-- Record that a text that a page emits may hold deferred fragments. A page that is cached as it
is becomes dynamic by that. -/
def track (p : Nat) (text : String) : SiteM String := do
  if Fragment.isMarked text then
    updatePage p fun page =>
      { page with
        deferred := true
        mode := if page.mode = .static then .dynamic else page.mode }
  return text

/-- The cache that the cacheable blocks of a page use. -/
def memoOf (page : Page) : Option Memo := page.context.cache.map fun cache =>
  ⟨cache, page.context.lifetime⟩

/-- The output of a block of a page. -/
def renderBlock (p i : Nat) : SiteM String := do
  let page ← page p
  onVault ((← outlineOf p).render (memoOf page) i)

section

variable (prepare : Nat → SiteM Unit)

/-- The output of a page. -/
def renderPage (p : Nat) : SiteM String := do
  prepare p
  renderBlock p Outline.root

/-- The output of another template as part of a page. -/
def includePage (p : Nat) (name vars : Value) : SiteM String := do
  let other ← relatedPage p name vars
  track p (← renderPage prepare other)

/-- Go on with the outline of a page that was prepared. -/
def adopt (p base : Nat) (name : Value) : SiteM Unit := do
  let prepared ← page base
  updatePage p fun page =>
    { page with
      -- the base was given all of the page's variables, so a key that equals nothing is there
      vars := Table.merge prepared.vars (page.vars.filter fun entry => entry.1 == entry.1)
      mode := prepared.mode
      deferred := page.deferred || prepared.deferred
      -- from here on both pages have one outline, and what was written before is gone
      outline := prepared.outline
      stack := [Outline.root]
      captures := [Capture.empty]
      base := some name }
  onDraft p (Draft.markExtended Outline.root)

/-- Extend the page of another template: prepare it first and go on with its outline. A template
that is being extended already closes a cycle. -/
def extend (p : Nat) (name : Value) : SiteM Unit := do
  let page ← page p
  let chain := page.chain ++ [page.place]
  let place ← locateFrom page name
  if chain.contains place then
    let path := fun place => (Path.absolute place).print
    throw (← check (Fault.ofCycle? ((chain ++ [place]).map path)))
  let base ← newPage place page.vars page.context chain
  -- the base goes on in the cache mode that has been reached so far
  updatePage base fun other => { other with mode := page.mode }
  prepare base
  adopt p base name

end

end PageBlocks.Site
