import PageBlocks.Block.Rendering
import PageBlocks.Locator
import PageBlocks.Page.Draft
import PageBlocks.Site.Directive

/-!
# Pages

A template together with the variables that it is rendered with. A page is made with a context, the
settings of the site at that moment, so that later changes of the site do not reach it. It refers to
its outline by number, because a page that extends another one goes on with the outline of the
other.
-/

set_option autoImplicit false

namespace PageBlocks

open PageBlocks.Cache

/-- The settings that all pages of one rendering share. -/
structure Context where
  locator : Locator := {}
  dialect : Body.Dialect := .script
  cache : Option Ref := none
  lifetime : Value := defaultLifetime
  directives : Table String Directive := []
  fragments : Fragment.Registry := []

/-- A template with the variables that it is rendered with. -/
structure Page where
  place : Place
  vars : Bindings
  context : Context
  /-- The identity that path and variables give the page. -/
  id : String
  /-- The places of the pages that are extending this one, outermost first. -/
  chain : List Place := []
  mode : CacheMode := .static
  /-- Whether the page emitted deferred fragments. -/
  deferred : Bool := false
  /-- The template that the page extends. -/
  base : Option Value := none
  /-- The number of the page's outline. -/
  outline : Nat
  /-- The numbers of the open blocks, innermost first. -/
  stack : List Nat := [Outline.root]
  /-- The captured texts of the open blocks, innermost first. -/
  captures : List Capture := [Capture.empty]

/-- The path of the page's template. -/
def Page.path (p : Page) : Path := Path.absolute p.place

/-- A short description. -/
def Page.summary (p : Page) : String :=
  "<Template " ++ Text.Quoted.text p.path.print ++ " " ++ p.mode.name ++ ">"

/-- Whether a page's output holds fragments that have to be computed for each request. A page that
emitted one cannot become static again. -/
def Page.isDynamic (page : Page) : Bool := page.deferred || page.mode = .dynamic

end PageBlocks
