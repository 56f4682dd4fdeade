import PageBlocks.Site.Pages

/-!
# Rendering

The policy by which a site answers a request for a page. A page has two entries in the cache: its
final output if it is static, and its compiled output, with the deferred fragments still encoded,
if it is dynamic. Whether it is one or the other is known after its body has run. Only what a
dynamic page emits is searched for tags, so that a text that looks like a tag is never taken for one
on a static page.
-/

set_option autoImplicit false

namespace PageBlocks.Site

open PageBlocks.Cache

/-- The text that a request gets from the output of a dynamic page. -/
def resolveFragments (context : Context) (request : Bindings) (text : String) : SiteM String :=
  context.fragments.resolve surroundings request text

/-- The context of a rendering with extra search directories. -/
def contextFor (settings : Context) (extra : List Path) : Context :=
  { settings with
    locator := { settings.locator with paths := settings.locator.paths ++ extra } }

/-- Store the output of a page under the key that its mode asks for. -/
def store (cache : Ref) (page : Page) (output : String) : SiteM Unit :=
  if page.mode = .disabled then return ()
  else
    let key := if page.isDynamic then Identity.compiled page.id else page.id
    onVault (cache.put key output (some page.context.lifetime))

section

variable (prepare : Nat → SiteM Unit)

/-- The output of a page that is not in the cache. -/
def renderAnew (p : Nat) (request : Bindings) : SiteM String := do
  let output ← renderPage prepare p
  -- the body may have changed the mode of its page
  let page ← page p
  match page.context.cache with
  | some cache => store cache page output
  | none => pure ()
  if page.isDynamic then resolveFragments page.context request output else return output

/-- The output of a page by way of the cache. -/
def renderCached (cache : Ref) (p : Nat) (request : Bindings) : SiteM String := do
  let page ← page p
  -- compiled output goes before final output
  match ← onVault (cache.lookup (Identity.compiled page.id)) with
  | some compiled => resolveFragments page.context request compiled
  | none =>
    match ← onVault (cache.lookup page.id) with
    | some output => return output
    | none => renderAnew prepare p request

/-- Answer a request for the page of a template. -/
def render (name : Value) (vars : Value) (paths : List String) (useGlobals : Bool) :
    SiteM String := do
  let w ← get
  let extra := paths.map Path.ofText
  let place ← locate w.settings.locator name extra
  let given ← check (Bindings.ofRequest vars)
  let request := if useGlobals then Table.merge w.globals given else given
  let context := contextFor w.settings extra
  let p ← newPage place request context []
  match context.cache with
  | some cache => renderCached prepare cache p request
  | none => renderAnew prepare p request

end

end PageBlocks.Site
