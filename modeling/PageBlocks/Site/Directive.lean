import PageBlocks.Body.Term
import PageBlocks.Cache.Request
import PageBlocks.Fragment.Registry
import PageBlocks.Markup.Transform

/-!
# Directives and requests

What the body of a page can call by name, and what can be asked of a site from outside. The two
belong together: a directive may pass a request on to the site while a page is being rendered.
-/

set_option autoImplicit false

namespace PageBlocks

/-- Which cache a site is to use. -/
inductive CacheChoice where
  /-- A new cache in memory. -/
  | shelf
  /-- The cache in the site's folder. -/
  | folder
  deriving DecidableEq, Repr

/-- Which of the entries of a page a key is for. -/
inductive EntryKind where
  | final
  | compiled
  | block (name : String)
  deriving DecidableEq

mutual

/-- What the name of a directive stands for. -/
inductive Directive where
  /-- Open a block; what it holds is replaced. -/
  | openBlock
  /-- Open a block; new text goes in front. -/
  | openBefore
  /-- Open a block; new text goes behind. -/
  | openBehind
  | closeBlock
  /-- Build on the page of another template. -/
  | extendPage
  /-- The output of another template. -/
  | includePage
  /-- The output of a block. -/
  | blockOutput
  /-- The content of the innermost open block. -/
  | parentContent
  /-- A callable that includes a template. -/
  | inserter
  | setVariable
  | setOption
  /-- A fragment that is computed for each request. -/
  | deferFragment
  /-- Open a cacheable block. -/
  | cacheableBlock
  /-- The output of another template by way of the cache. -/
  | cachedInclude (lifetime : Value)
  /-- The text behind an address by way of the cache. -/
  | cachedFetch (lifetime : Value)
  /-- The text behind an address, fetched for each request. -/
  | freshFetch
  /-- Open a markup block. -/
  | markupBlock (transforms : Table String Transform)
  /-- A text transformed. -/
  | transformText (transforms : Table String Transform)
  /-- Open a markup block for light markup. -/
  | lightBlock (transforms : Table String Transform)
  /-- A text in light markup, transformed. -/
  | lightText (transforms : Table String Transform)
  /-- The next number of a counter. -/
  | tick (counter : Nat)
  /-- A text between two others. -/
  | wrap
  /-- Write a value to the page. -/
  | writeText
  /-- The file name of the template. -/
  | fileName
  /-- The name of the cache mode. -/
  | modeName
  /-- The names of all blocks. -/
  | blockNames
  /-- The name of the innermost open block. -/
  | currentName
  /-- The variables as text. -/
  | variablesText
  /-- A tag that the page does not keep track of. -/
  | bareTag
  /-- The identity of the page. -/
  | identity
  /-- Pass a request on to the site. -/
  | request (r : Request)

/-- What can be asked of a site. -/
inductive Request where
  | render (name : Value) (vars : Option Value) (paths : List String) (useGlobals : Bool)
  | locate (name : Value) (paths : List String)
  | addGlobal (name : Value) (value : Value)
  | globals
  | addNamespace (name : String) (paths : List String)
  | addDirective (name : String) (directive : Directive)
  | directiveNames
  | addFragment (name : String) (kind : Fragment.Kind)
  | fragmentNames
  | encodeTag (kind : Value) (arguments : List Value)
  /-- Install a cache and the directives that use it. -/
  | installCache (choice : CacheChoice) (lifetime : Option Value)
  /-- Install the directives for markup. -/
  | installMarkup (transforms : List String)
  | setCache (choice : Option CacheChoice) (lifetime : Option Value)
  | lifetime
  | writeFile (path : String) (source : Body.Source)
  | deleteFile (path : String)
  /-- The deposits since they were last asked for. -/
  | deposits
  /-- The addresses that were fetched so far. -/
  | fetched
  | identity (name : Value) (vars : Option Value)
  /-- The folder of the current cache. -/
  | cacheFolder
  /-- A request to the current cache about an entry of a page. -/
  | onEntry (name : Value) (vars : Option Value) (entry : EntryKind)
      (request : String → Cache.Request)
  | cache (request : Cache.Request)

end

instance : Inhabited Directive := ⟨.closeBlock⟩

instance : Inhabited Request := ⟨.globals⟩

namespace Directive

/-- The directives that are always there. -/
def builtIn : Table String Directive :=
  [("append", openBehind), ("begin", openBlock), ("content", blockOutput),
    ("defer", deferFragment), ("end", closeBlock), ("extend", extendPage),
    ("incl", includePage), ("let", setVariable), ("macro", inserter), ("opt", setOption),
    ("parent", parentContent), ("prepend", openBefore)]

/-- The directives that come with an installed cache. -/
def forCache (lifetime : Value) : Table String Directive :=
  [("cache", cacheableBlock), ("cincl", cachedInclude lifetime),
    ("cfetch", cachedFetch lifetime), ("ncfetch", freshFetch)]

/-- The directives for markup. -/
def forMarkup (transforms : Table String Transform) : Table String Directive :=
  [("markup", markupBlock transforms), ("transform", transformText transforms),
    ("markdown", lightBlock transforms), ("md", lightText transforms)]

/-- The directive as it is registered under a number: a counting one gets a counter of its own. -/
def numbered (number : Nat) : Directive → Directive
  | tick _ => tick number
  | directive => directive

end Directive

/-- The kind of fragment as it is registered under a number: a counting one gets a counter of its
own. -/
def Fragment.Kind.numbered (number : Nat) : Fragment.Kind → Fragment.Kind
  | .counter _ => .counter number
  | kind => kind

end PageBlocks
