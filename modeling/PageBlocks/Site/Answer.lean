import PageBlocks.Number.Decimal
import PageBlocks.Settings
import PageBlocks.Site.Rendering

/-!
# Answering requests

What a site does for each request, and the value that it answers with.
-/

set_option autoImplicit false

namespace PageBlocks.Site

open PageBlocks.Cache

/-- Change the settings for new pages. -/
def updateSettings (f : Context → Context) : SiteM Unit :=
  modify fun w => { w with settings := f w.settings }

/-- The cache that is chosen. -/
def chosenCache : CacheChoice → SiteM Ref
  | .shelf => do
    let w ← get
    let (cache, vault) := w.vault.addShelf
    set { w with vault }
    return cache
  | .folder => return .folder (← get).folderName

/-- Use a cache from now on. -/
def useCache (cache : Option Ref) (lifetime : Option Value) : SiteM Unit :=
  updateSettings fun s => { s with cache, lifetime := lifetime.getD defaultLifetime }

/-- Register a directive. -/
def addDirective (name : String) (directive : Directive) : SiteM Unit := do
  let number ← newCounter
  updateSettings fun s =>
    { s with directives := s.directives.insert name (directive.numbered number) }

/-- Register a kind of fragment. -/
def addFragment (name : String) (kind : Fragment.Kind) : SiteM Unit := do
  let number ← newCounter
  updateSettings fun s => { s with fragments := s.fragments.insert name (kind.numbered number) }

/-- A deposit as a value. -/
def depositValue (d : Deposit) : Value :=
  .list ([.text d.key, .text d.content] ++ d.lifetime.toList)

/-- The identity of the page of a template with the given variables. -/
def identityOf (name : Value) (vars : Option Value) : SiteM String := do
  let place ← locate (← get).settings.locator name []
  let given ← check (Bindings.ofMap (vars.getD .null))
  check (Identity.page (Path.absolute place).print given)

/-- The key of an entry of a page. -/
def entryKey (page : String) : EntryKind → String
  | .final => page
  | .compiled => Identity.compiled page
  | .block name => Identity.block page (.text name)

/-- Values as a list of texts. -/
def texts (names : List String) : Value := .list (names.map .text)

section

variable (prepare : Nat → SiteM Unit)

/-- Answer a request. -/
def answer : Request → SiteM Value
  | .render name vars paths useGlobals =>
    Value.text <$> render prepare name (vars.getD .null) paths useGlobals
  | .locate name paths => do
    let place ← locate (← get).settings.locator name (paths.map Path.ofText)
    return .text (Path.absolute place).print
  | .addGlobal name value => do
    if !name.isKey then throw (.host .type)
    modify fun w => { w with globals := w.globals.insert name value }
    return .bool true
  | .globals => do
    let sorted ← check (Fault.ofOrder (Value.sortByKey (← get).globals))
    return .list (sorted.map fun entry => .list [entry.1, entry.2])
  | .addNamespace name paths => do
    let w ← get
    let locator ← check (w.settings.locator.addNamespace name paths)
    updateSettings fun s => { s with locator }
    return .null
  | .addDirective name directive => do
    addDirective name directive
    return .null
  | .directiveNames => do return texts (← get).settings.directives.keys
  | .addFragment name kind => do
    addFragment name kind
    return .null
  | .fragmentNames => do return texts (← get).settings.fragments.keys
  | .encodeTag kind arguments => do
    return .text (← check ((← get).settings.fragments.encode kind arguments))
  | .installCache choice lifetime => do
    let lifetime := lifetime.getD defaultLifetime
    useCache (some (← chosenCache choice)) lifetime
    updateSettings fun s =>
      { s with
        directives := Table.merge s.directives (Directive.forCache lifetime)
        fragments := s.fragments.insert "fetch" .fetch }
    return .null
  | .installMarkup names => do
    updateSettings fun s =>
      { s with
        directives := Table.merge s.directives (Directive.forMarkup (Transform.register names)) }
    return .null
  | .setCache choice lifetime => do
    match choice with
    | some choice => useCache (some (← chosenCache choice)) lifetime
    | none => useCache none lifetime
    return .null
  | .lifetime => do return (← get).settings.lifetime
  | .writeFile path source => do
    modify fun w => { w with files := w.files.insert (Path.ofText path).parts source }
    return .null
  | .deleteFile path => do
    modify fun w => { w with files := w.files.erase (Path.ofText path).parts }
    return .null
  | .deposits => do
    let w ← get
    set { w with vault := { w.vault with deposits := [] } }
    return .list (w.vault.deposits.reverse.map depositValue)
  | .fetched => do return texts (← get).fetched.reverse
  | .identity name vars => do
    let id ← identityOf name vars
    return texts [id, Identity.compiled id]
  | .cacheFolder => do
    match (← get).settings.cache with
    | some (.folder name) => return .text name
    | _ => return .null
  | .onEntry name vars entry request => do
    let id ← identityOf name vars
    onVault (Cache.perform (← get).settings.cache (request (entryKey id entry)))
  | .cache request => do onVault (Cache.perform (← get).settings.cache request)

end

/-! ## New sites -/

/-- The settings of a site without plugins. -/
def startSettings (locator : Locator) (dialect : Body.Dialect) (lifetime : Value) : Context :=
  { locator, dialect, lifetime
    directives := Directive.builtIn
    fragments := Fragment.Registry.builtIn }

/-- Set up the cache of a configured site, if it is to have one. -/
def configureCache (enabled : Bool) : SiteM Unit := do
  if enabled then
    let cache ← chosenCache .folder
    updateSettings fun s => { s with cache := some cache }

end PageBlocks.Site
