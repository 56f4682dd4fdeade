/-!
# Kinds of blocks

How a block turns its content into output, and how a newly captured text joins the content that is
there already.
-/

set_option autoImplicit false

namespace PageBlocks

/-- The kinds of blocks: plain ones splice their children into their content, cacheable ones keep
what that gave in the cache, and markup ones transform the text around their children. -/
inductive BlockKind where
  | plain
  | cacheable
  | markup
  deriving DecidableEq, Repr

/-- The name of a kind. -/
def BlockKind.name : BlockKind → String
  | plain => "plain"
  | cacheable => "cacheable"
  | markup => "markup"

/-- The kind of a name. -/
def BlockKind.ofName? (s : String) : Option BlockKind :=
  [plain, cacheable, markup].find? fun kind => kind.name == s

/-- How captured text joins existing content. -/
inductive ApplyMode where
  | replace
  | prepend
  | append
  deriving DecidableEq, Repr

namespace ApplyMode

/-- The name of an apply mode. -/
def name : ApplyMode → String
  | replace => "replace"
  | prepend => "prepend"
  | append => "append"

/-- The apply mode of a name. -/
def ofName? (s : String) : Option ApplyMode :=
  [replace, prepend, append].find? fun mode => mode.name == s

/-- The content after a captured text joined it. -/
def apply : ApplyMode → String → String → String
  | replace, _, captured => captured
  | prepend, content, captured => captured ++ content
  | append, content, captured => content ++ captured

end ApplyMode

end PageBlocks
