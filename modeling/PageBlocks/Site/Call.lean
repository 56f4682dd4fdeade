import PageBlocks.Site.Answer

/-!
# Calls

What calling a value from the body of a page does. Directives are bound to the page whose body
names them; an inserter includes its template in the page that made it. A directive without a result
gives the empty text.
-/

set_option autoImplicit false

namespace PageBlocks

/-! ## Arguments

How arguments by position and by name become the values of parameters. Every parameter gets one
value, and no argument is left over. -/

/-- A parameter: its name and what it is if it is left out. -/
structure Parameter where
  name : String
  default : Option Value := none

/-- A parameter that has to be given. -/
def required (name : String) : Parameter := ⟨name, none⟩

/-- A parameter that may be left out. -/
def optional (name : String) (default : Value) : Parameter := ⟨name, some default⟩

/-- The values of parameters. -/
def bindArguments : List Parameter → List Value → Table String Value → Except Fault (List Value)
  | [], [], [] => .ok []
  | [], _, _ => .error (.host .type)
  | p :: ps, v :: rest, named =>
    if named.has p.name then .error (.host .type)
    else (bindArguments ps rest named).map (v :: ·)
  | p :: ps, [], named =>
    match named.get? p.name, p.default with
    | some v, _ => (bindArguments ps [] (named.erase p.name)).map (v :: ·)
    | none, some v => (bindArguments ps [] named).map (v :: ·)
    | none, none => .error (.host .type)

namespace Site

open PageBlocks.Cache

/-! ## Directives -/

/-- The result of a directive that has none. -/
def done : Value := .text ""

/-- A result that is shown; the null value shows nothing. -/
def shown : Value → Value
  | .null => done
  | v => v

/-- The cache of a page. -/
def requireCache (page : Page) : SiteM Ref :=
  match page.context.cache with
  | some cache => return cache
  | none => throw (.cacheUnavailable page.path.print)

/-- The cache mode that a value asks for. -/
def modeOf : Value → Except Fault CacheMode
  | .mode m => .ok m
  | .text s =>
    match CacheMode.ofName? s with
    | some m => .ok m
    | none => .error (.invalidCacheMode (.text s))
  | v => .error (.invalidCacheMode v)

/-- Change how the output of a page is cached. -/
def setMode (p : Nat) (v : Value) : SiteM Unit := do
  let mode ← check (modeOf v)
  updatePage p fun page => { page with mode }

/-- Bind a variable of a page. -/
def setVariable (p : Nat) (name value : Value) : SiteM Unit := do
  if name.isKey then
    updatePage p fun page => { page with vars := page.vars.insert name value }
  else throw (.host .type)

/-- Set an option of a page. There is one, the cache mode; its name may be in any case. -/
def setOption (p : Nat) (option value : Value) : SiteM Unit :=
  match option with
  | .text s =>
    if String.ofList (Text.lower s.toList) = "cachemode" then setMode p value
    else throw (.value (.option option))
  | .bytes _ => throw (.value (.option option))
  | v => throw (Fault.withoutOperation v)

/-- The tag of a fragment, with the kinds that the page knows. -/
def tagOf (p : Nat) (kind : Value) (arguments : List Value) : SiteM String := do
  check ((← page p).context.fragments.encode kind arguments)

/-- Emit a fragment that is computed for each request. -/
def deferFragment (p : Nat) (kind : Value) (arguments : List Value) : SiteM Value := do
  Value.text <$> track p (← tagOf p kind arguments)

/-- The kind and the arguments of a fragment. -/
def kindAndArguments : List Value → Table String Value → Except Fault (Value × List Value)
  | kind :: arguments, [] => .ok (kind, arguments)
  | [], [(name, kind)] => if name = "kind" then .ok (kind, []) else .error (.host .type)
  | _, _ => .error (.host .type)

/-- Open a new block of a kind, or the block of its name. -/
def declareBlock (p : Nat) (name : Value) (kind : BlockKind) (lifetime : Value)
    (transform : Option Transform) : SiteM Unit := do
  let b ← check (Block.declare (← page p).id name kind lifetime transform)
  let _ ← onDraft p (Draft.addBlock b .replace)

/-- Open a markup block. -/
def declareMarkup (p : Nat) (transforms : Table String Transform) (name transform : Value) :
    SiteM Unit := do
  declareBlock p name .markup .null (some (← check (Transform.find transforms transform)))

/-- A text transformed. -/
def transformed (transforms : Table String Transform) (text transform : Value) : SiteM Value := do
  check ((← check (Transform.find transforms transform)).applyTo text)

/-- The output of the block of a name; an unknown block has none. -/
def blockOutput (p : Nat) (name : Value) : SiteM String := do
  if !name.isKey then throw (.host .type)
  match (← outlineOf p).find? name with
  | some i => renderBlock p i
  | none => return ""

/-- The innermost open block of a page. -/
def currentBlock (p : Nat) : SiteM Block := do
  let d := draftOf (← page p) (← outlineOf p)
  match d.outline.block? d.current with
  | some b => return b
  | none => throw unknownNumber

/-- The names of all blocks; they have to be texts. -/
def blockNames (p : Nat) : SiteM String := do
  let names ← (← outlineOf p).registry.mapM fun entry =>
    match entry.1 with
    | .text s => return s
    | _ => throw (.host .type)
  return ",".intercalate names

/-- A lifetime, or another one if it is null. -/
def lifetimeOr (lifetime default : Value) : Value :=
  match lifetime with
  | .null => default
  | lifetime => lifetime

/-- The text of a key in the cache, computed and stored if it is not there. -/
def remembered (cache : Ref) (key : String) (lifetime : Value) (compute : SiteM String) :
    SiteM String := do
  match ← onVault (cache.lookup key) with
  | some text => return text
  | none =>
    let text ← compute
    onVault (cache.put key text (some lifetime))
    return text

section

variable (prepare : Nat → SiteM Unit)

/-- The output of another template by way of the cache, as part of a page. -/
def cachedInclude (p : Nat) (name vars lifetime : Value) : SiteM String := do
  let cache ← requireCache (← page p)
  let other ← relatedPage p name vars
  -- the identity is that of the request, before the body binds further variables
  let id := (← page other).id
  track p (← remembered cache id lifetime (renderPage prepare other))

/-- The text behind an address by way of the cache. -/
def cachedFetch (p : Nat) (url lifetime : Value) : SiteM String := do
  let page ← page p
  let cache ← requireCache page
  remembered cache (Identity.fetch page.id url.print) lifetime (fetch url)

/-- The parameters of a directive that takes a fixed list of them. -/
def parameters : Directive → List Parameter
  | .openBlock | .openBefore | .openBehind | .extendPage | .blockOutput | .inserter
  | .lightBlock _ => [required "name"]
  | .includePage => [required "name", optional "variables" .null]
  | .setVariable => [required "name", required "value"]
  | .setOption => [required "option", required "value"]
  | .cacheableBlock => [required "name", optional "ttl" .null]
  | .cachedInclude _ => [required "name", optional "variables" .null, optional "ttl" .null]
  | .cachedFetch _ => [required "url", optional "ttl" .null]
  | .freshFetch => [required "url"]
  | .markupBlock _ => [required "name", optional "transform" (.text "escape")]
  | .transformText _ => [required "text", optional "name" (.text "escape")]
  | .lightText _ | .writeText => [required "text"]
  | .wrap => [required "text", optional "left" (.text "["), optional "right" (.text "]")]
  | _ => []

/-- Carry out a directive with the values of its parameters. -/
def carryOut (p : Nat) : Directive → List Value → SiteM Value
  | .openBlock, [name] => do
    let _ ← onDraft p (Draft.openBlock name .replace)
    return done
  | .openBefore, [name] => do
    let _ ← onDraft p (Draft.openBlock name .prepend)
    return done
  | .openBehind, [name] => do
    let _ ← onDraft p (Draft.openBlock name .append)
    return done
  | .closeBlock, [] => do
    onDraft p Draft.close
    return done
  | .extendPage, [name] => do
    extend prepare p name
    return done
  | .includePage, [name, vars] => Value.text <$> includePage prepare p name vars
  | .blockOutput, [name] => Value.text <$> blockOutput p name
  | .parentContent, [] => do return .text (← currentBlock p).content
  | .inserter, [name] => return .inserter p name
  | .setVariable, [name, value] => do
    setVariable p name value
    return done
  | .setOption, [option, value] => do
    setOption p option value
    return done
  | .cacheableBlock, [name, lifetime] => do
    let _ ← requireCache (← page p)
    declareBlock p name .cacheable lifetime none
    return done
  | .cachedInclude default, [name, vars, lifetime] =>
    Value.text <$> cachedInclude prepare p name vars (lifetimeOr lifetime default)
  | .cachedFetch default, [url, lifetime] =>
    Value.text <$> cachedFetch p url (lifetimeOr lifetime default)
  | .freshFetch, [url] => do
    let _ ← requireCache (← page p)
    deferFragment p (.text "fetch") [url]
  | .markupBlock transforms, [name, transform] => do
    declareMarkup p transforms name transform
    return done
  | .transformText transforms, [text, transform] => transformed transforms text transform
  | .lightBlock transforms, [name] => do
    declareMarkup p transforms name (.text "md")
    return done
  | .lightText transforms, [text] => transformed transforms text (.text "md")
  | .tick counter, [] => do return .int (← count counter)
  | .wrap, [text, left, right] => return .text (left.print ++ text.print ++ right.print)
  | .writeText, [text] => do
    onDraft p (Draft.write text)
    return done
  | .fileName, [] => do return .text (← page p).path.name
  | .modeName, [] => do return .text (← page p).mode.name
  | .blockNames, [] => Value.text <$> blockNames p
  | .currentName, [] => do return (← currentBlock p).name
  | .variablesText, [] => do
    return .text (← check (Fragment.variablesText (← page p).vars))
  | .identity, [] => do return .text (← page p).id
  | .request r, [] => shown <$> answer prepare r
  | _, _ => throw (.host .type)

/-- Call a directive of a page. -/
def callDirective (p : Nat) (directive : Directive) (arguments : List Value)
    (named : Table String Value) : SiteM Value := do
  match directive with
  | .deferFragment => do
    let (kind, rest) ← check (kindAndArguments arguments named)
    deferFragment p kind rest
  | .bareTag => do
    let (kind, rest) ← check (kindAndArguments arguments named)
    return .text (← tagOf p kind rest)
  | directive =>
    let values ← check (bindArguments (parameters directive) arguments named)
    carryOut prepare p directive values

/-- Include the template of an inserter: variables come as one mapping, by name, or both. -/
def callInserter (p : Nat) (name : Value) (arguments : List Value) (named : Table String Value) :
    SiteM Value := do
  let (vars, named) ← match arguments, named.get? "variables" with
    | [], none => pure (Value.null, named)
    | [], some v => pure (v, named.erase "variables")
    | [v], none => pure (v, named)
    | _, _ => throw (.host .type)
  let given ← check (Bindings.ofMap vars)
  let more := named.map fun binding => (Value.text binding.1, binding.2)
  Value.text <$> includePage prepare p name (.map (Table.merge given more))

/-- The whole number that a value is. -/
def wholeOf : Value → Except Fault Int
  | .int n => .ok n
  | .bool b => .ok (if b then 1 else 0)
  | _ => .error (.host .type)

/-- A range from its start, stop and step. -/
def rangeOf : List Value → Except Fault Value
  | [stop] => do return .range 0 (← wholeOf stop) 1
  | [start, stop] => do return .range (← wholeOf start) (← wholeOf stop) 1
  | [start, stop, step] => do
    let range := (Value.range (← wholeOf start) (← wholeOf stop) ·)
    let step ← wholeOf step
    if step = 0 then throw (.value .noStep) else return range step
  | _ => .error (.host .type)

/-- Call a function of the language. -/
def callBuiltIn (arguments : List Value) (named : Table String Value) :
    BuiltIn → Except Fault Value
  | .range => if named.isEmpty then rangeOf arguments else .error (.host .type)
  | .mapping => do
    let given ← match arguments with
      | [] => pure []
      | [v] => Bindings.ofSeries v
      | _ => throw (.host .type)
    let more := named.map fun binding => (Value.text binding.1, binding.2)
    return .map (Table.merge given more)

/-- Call a value. -/
def call (callee : Value) (arguments : List Value) (named : List (String × Value)) :
    SiteM Value := do
  let named := Table.ofBindings named
  match callee with
  | .directive p name =>
    match (← page p).context.directives.get? name with
    | some directive => callDirective prepare p directive arguments named
    | none => throw unknownNumber
  | .inserter p name => callInserter prepare p name arguments named
  | .builtIn f => check (callBuiltIn arguments named f)
  | _ => throw (.host .type)

end

end Site

end PageBlocks
