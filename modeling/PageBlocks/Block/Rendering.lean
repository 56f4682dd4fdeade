import PageBlocks.Block.Outline
import PageBlocks.Cache.Vault

/-!
# Rendering outlines

A block is rendered by rendering its children and splicing them in at their tokens. Text that comes
from a child is never looked at again: not for tokens, and not by the transform of a markup block,
which sees only the block's own text, one non-empty piece between tokens at a time. A token that
belongs to no child stays. The output of a cacheable block is taken from the cache if it is there,
and put there if it is not.
-/

set_option autoImplicit false

namespace PageBlocks

open PageBlocks.Cache

/-- The cache that cacheable blocks use, and the lifetime of blocks that name none. -/
structure Memo where
  cache : Ref
  lifetime : Value

namespace Block

/-- What a block does to a piece of its own text. Empty pieces stay empty. -/
def shape (b : Block) (piece : List Char) : String :=
  match b.kind, b.transform with
  | .markup, some transform =>
    if piece.isEmpty then "" else transform.apply (String.ofList piece)
  | _, _ => String.ofList piece

/-- What stands in the place of a token: the output of the child, or the token itself. -/
def inserted (rendered : Table String String) (id : List Char) : String :=
  match rendered.get? (String.ofList id) with
  | some output => output
  | none => String.ofList (Token.ofId id)

/-- The content of a block with its own text shaped and the outputs of its children, by their
identities, in the places of their tokens. The text of a markup block is cut into pieces and put
together again; in any other block the tokens of the children are replaced where they stand. -/
def splice (b : Block) (rendered : Table String String) : String :=
  match b.kind with
  | .markup =>
    let parts := Token.split b.content.toList
    parts.2.foldl (fun done part => done ++ inserted rendered part.1 ++ b.shape part.2)
      (b.shape parts.1)
  | _ =>
    if rendered.isEmpty then b.content
    else
      let shown? := fun id => (rendered.get? (String.ofList id)).map String.toList
      String.ofList (Token.substitute shown? b.content.toList)

end Block

namespace Outline

/-- The output of a block from the outputs of its children, which a function renders. -/
def compose (renderChild : Nat → VaultM String) (o : Outline) (b : Block) : VaultM String := do
  let rendered ← b.children.filterMapM fun i => do
    match o.block? i with
    | some child => return some (child.id, ← renderChild i)
    | none => return none
  return b.splice (Table.ofBindings rendered)

/-- The output of a block by way of the cache. -/
def remembered (memo : Memo) (b : Block) (render : VaultM String) : VaultM String := do
  match ← memo.cache.lookup b.id with
  | some output => return output
  | none =>
    let output ← render
    let lifetime := match b.lifetime with
      | .null => memo.lifetime
      | lifetime => lifetime
    memo.cache.put b.id output (some lifetime)
    return output

/-- The output of the block of a number; the first argument bounds the depth of the tree. -/
def renderFrom : Nat → Option Memo → Outline → Nat → VaultM String
  | 0, _, _, _ => throw (.host .tooDeep)
  | depth + 1, memo, o, i =>
    match o.block? i with
    | none => return ""
    | some b =>
      -- without a cache, a cacheable block is rendered like a plain one
      match b.kind, memo with
      | .cacheable, some memo => remembered memo b (compose (renderFrom depth (some memo) o) o b)
      | _, memo => compose (renderFrom depth memo o) o b

/-- The output of a block. A tree is at most as deep as it has blocks. -/
def render (memo : Option Memo) (o : Outline) (i : Nat) : VaultM String :=
  renderFrom (o.blocks.length + 1) memo o i

end Outline

end PageBlocks
