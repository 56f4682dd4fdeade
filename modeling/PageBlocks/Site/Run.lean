import PageBlocks.Body.Braces.Admission
import PageBlocks.Site.Call

/-!
# Running pages

Preparing a page runs its body, and the body may call for other pages to be prepared. How deep that
may go is limited; within one page the run ends by itself.
-/

set_option autoImplicit false

namespace PageBlocks.Site

/-- What a body knows itself by. -/
def ownValue (page : Page) : Value :=
  .object ("TemplateReference " ++ Text.Quoted.text page.path.print)

/-- The body of a page's template. -/
def bodyOf (page : Page) : SiteM (List Body.Item) := do
  match (← get).files.get? page.place with
  | some (.items items) => return items
  | some (.text s) => check (Body.Braces.read (ownValue page) s)
  | none => throw (.templateNotFound (.text page.path.print) [])

/-- The variables of a page by the texts that name them. A variable may have a name that is no
text; one of the languages leaves it out, the other one refuses it. -/
def namedVariables (dialect : Body.Dialect) (vars : Bindings) : Except Fault Body.Scope :=
  vars.foldlM (fun scope entry =>
    match entry.1, dialect with
    | .text name, _ => .ok (scope.insert name entry.2)
    | _, .script => .ok scope
    | _, .braces => .error (.host .type)) []

/-- What names stand for below the directives and the variables. -/
def ground : Body.Dialect → Body.Scope
  | .script => []
  | .braces => [("range", .builtIn .range), ("dict", .builtIn .mapping)]

/-- What names are bound to when the body of a page starts: directives, and variables, which win. -/
def scopeOf (p : Nat) (page : Page) : Except Fault Body.Scope := do
  let directives := page.context.directives.map fun entry =>
    (entry.1, Value.directive p entry.1)
  let vars ← namedVariables page.context.dialect page.vars
  return Table.merge (Table.merge (ground page.context.dialect) directives) vars

/-- Run the body of a page, given how the pages that it calls for are prepared. -/
def runBody (prepare : Nat → SiteM Unit) (p : Nat) : SiteM Unit := do
  -- text that was captured before the run is gone, open blocks stay open
  onDraft p Draft.resetCaptures
  modify fun w => { w with executed := w.executed + 1 }
  let page ← page p
  let handler : Body.Handler SiteM :=
    { dialect := page.context.dialect
      call := call prepare
      write := fun s => onDraft p (Draft.write (.text s)) }
  let items ← bodyOf page
  let _ ← Body.runAll handler (← check (scopeOf p page)) items
  onDraft p Draft.finish

/-- Prepare a page; the first argument bounds the depth to which preparing pages nests. -/
def prepareFrom : Nat → Nat → SiteM Unit
  | 0, _ => throw (.host .tooDeep)
  | depth + 1, p => runBody (prepareFrom depth) p

/-- The depth to which preparing pages nests: extending alone cannot go deeper than there are
files, and including is given room beyond that. -/
def depthLimit (w : World) : Nat := 1000 + w.files.length

/-- Prepare a page. -/
def prepare (p : Nat) : SiteM Unit := do prepareFrom (depthLimit (← get)) p

/-- Carry out a request. -/
def perform (request : Request) : SiteM Value := answer prepare request

end PageBlocks.Site
