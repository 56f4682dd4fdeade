import PageBlocks.Block.Kind
import PageBlocks.Block.Token
import PageBlocks.Markup.Transform
import PageBlocks.Page.Identity

/-!
# Outlines

The blocks of a page. Each block has a number, by which its parent and its children refer to it,
and the outline keeps the numbers of the named blocks in its registry, in the order in which they
were first declared. Block 0 of a page's outline is the root, which holds the text outside of all
named blocks.
-/

set_option autoImplicit false

namespace PageBlocks

/-- A named piece of a page's output. -/
structure Block where
  /-- The identity of the page that declared the block. -/
  owner : String
  name : Value
  /-- The digest by which tokens and the cache refer to the block. -/
  id : String
  kind : BlockKind := .plain
  /-- The lifetime of a cacheable block's output, null if the page decides. -/
  lifetime : Value := .null
  /-- What a markup block does to its own text. -/
  transform : Option Transform := none
  content : String := ""
  parent : Option Nat := none
  children : List Nat := []
  mode : ApplyMode := .replace
  /-- Whether the block was declared again after its first declaration. -/
  extended : Bool := false

namespace Block

/-- A new plain block. -/
def plain (owner : String) (name : Value) : Block :=
  { owner, name, id := Identity.block owner name }

/-- A new block; a markup block has to come with a transform. -/
def declare (owner : String) (name : Value) (kind : BlockKind) (lifetime : Value)
    (transform : Option Transform) : Except Fault Block :=
  if kind = .markup ∧ transform = none then .error (.value (.noTransform name))
  else .ok { plain owner name with kind, lifetime, transform }

/-- The token that marks the block's place in the content of its parent. -/
def token (b : Block) : String := String.ofList (Token.ofId b.id.toList)

/-- The block with a captured text joined to its content. -/
def merge (b : Block) (captured : String) : Block :=
  { b with content := b.mode.apply b.content captured }

/-- A short description. -/
def summary (b : Block) : String :=
  "<Block " ++ b.name.quoted ++ " " ++ b.kind.name ++ " children="
    ++ Number.Decimal.text b.children.length ++ ">"

end Block

/-- The blocks of a page by number, and the numbers of the named ones. -/
structure Outline where
  blocks : List Block := []
  registry : Table Value Nat := []

namespace Outline

/-- The name of the root. -/
def rootName : Value := .text "."

/-- The number of the root. -/
def root : Nat := 0

/-- The outline of a page that declared nothing yet. -/
def start (owner : String) : Outline := ⟨[Block.plain owner rootName], [(rootName, root)]⟩

/-- The block of a number. -/
def block? (o : Outline) (i : Nat) : Option Block := o.blocks[i]?

/-- The outline with a block replaced by what a function makes of it. -/
def update (o : Outline) (i : Nat) (f : Block → Block) : Outline :=
  { o with blocks := o.blocks.modify i f }

/-- The outline with one more block, which is nobody's child yet, and its number. -/
def add (o : Outline) (b : Block) : Nat × Outline :=
  (o.blocks.length, { o with blocks := o.blocks ++ [b] })

/-- The outline with a block made the last child of another one. -/
def attach (o : Outline) (parent child : Nat) : Outline :=
  (o.update child fun b => { b with parent := some parent }).update parent
    fun b => { b with children := b.children ++ [child] }

/-- The outline with one more block, the last child of another one, and its number. -/
def addChild (o : Outline) (parent : Nat) (b : Block) : Nat × Outline :=
  let (i, o) := o.add b
  (i, o.attach parent i)

/-- A new plain child of a block; the page that declared the parent owns it too. -/
def createChild (o : Outline) (parent : Nat) (name : Value) : Nat × Outline :=
  let owner := ((o.block? parent).map Block.owner).getD ""
  o.addChild parent (Block.plain owner name)

/-- The number of the block that is registered under a name. -/
def find? (o : Outline) (name : Value) : Option Nat := o.registry.get? name

/-- The outline with a name registered. -/
def register (o : Outline) (name : Value) (i : Nat) : Outline :=
  { o with registry := o.registry.insert name i }

end Outline

end PageBlocks
