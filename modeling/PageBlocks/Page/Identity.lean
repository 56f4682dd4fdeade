import PageBlocks.Digest.Sha1
import PageBlocks.Fault
import PageBlocks.Json.Writer

/-!
# Identities

Pages, their blocks and what they fetch are known by digests. Each digest is taken of a text that
starts with the path of the template, or with the identity of the page; the texts are definitions
of their own, so that what can be told apart does not depend on the digest.
-/

set_option autoImplicit false

namespace PageBlocks.Identity

/-- The quoted list of the pairs of names and values in the order of the names. -/
def quotedVariables (vars : Bindings) : Except Fault (List Char) := do
  let sorted ← Fault.ofOrder (Value.sortByKey vars)
  return (Value.list (sorted.map fun entry => .tuple [entry.1, entry.2])).quotedChars

/-- The variables of a page as text: JSON with sorted keys and, if there is no such form, the
quoted list. A key that stands for an unbound name is in the way of both. -/
def variablesText (vars : Bindings) : Except Fault (List Char) :=
  match Json.write Json.Style.identity (.map vars) with
  | .ok written => .ok written
  | .error (.noOrder .missing) => .error (Fault.ofNoOrder .missing)
  | .error _ => quotedVariables vars

/-- The text of a page: its path and its variables. -/
def pageText (path : String) (vars : Bindings) : Except Fault (List Char) := do
  return path.toList ++ (← variablesText vars)

/-- The text of a page's compiled output. -/
def compiledText (page : String) : List Char := page.toList ++ "compiled".toList

/-- The text of a block: the identity of the page that owns it and its printed name. -/
def blockText (page : String) (name : Value) : List Char := page.toList ++ name.print.toList

/-- The text of what a page fetches from an address. -/
def fetchText (page url : String) : List Char := page.toList ++ url.toList

/-- The digest of a text. -/
def digest (text : List Char) : String := Digest.Sha1.ofText (String.ofList text)

/-- The identity of a page. -/
def page (path : String) (vars : Bindings) : Except Fault String :=
  digest <$> pageText path vars

/-- The key of a page's compiled output. -/
def compiled (page : String) : String := digest (compiledText page)

/-- The identity of a block. -/
def block (page : String) (name : Value) : String := digest (blockText page name)

/-- The key of what a page fetches. -/
def fetch (page url : String) : String := digest (fetchText page url)

theorem digest_eq : digest = fun text =>
    String.ofList (Digest.Sha1.Numeric.hex (Text.Utf8.ofText (String.ofList text))) := by
  unfold digest
  rw [Digest.Sha1.ofText_eq]

end PageBlocks.Identity
