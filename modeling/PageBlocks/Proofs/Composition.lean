import Mathlib.Data.Finset.Card
import Mathlib.Data.Finset.Range
import PageBlocks.Proofs.Inheritance.Splice
import PageBlocks.Proofs.Tokens
import PageBlocks.Proofs.Trees

/-!
# What blocks are composed of

Without a cache, rendering a tree of blocks has one output for each block, and leaves everything as
it is. That output is put together from the pieces between the tokens of the content and from the
outputs of the children that the tokens stand for (`exists_outputs`): each piece as it is, or
transformed if the block is a markup block and the piece is not empty; for each token the output of
the child with its identity, or the token itself if there is none. What comes from a child is not
looked at again, whatever is in it.

The blocks of the tree may have any numbers. It has to be a tree as far as no block lies below one
of its own children, so that rendering never goes deeper than there are blocks (`rank_lt`).
-/

set_option autoImplicit false

namespace PageBlocks.Outline

open PageBlocks.Cache

/-- No block lies below one of its children. -/
def IsAcyclic (o : Outline) : Prop :=
  ∀ {i j : Nat} {b : Block}, o.block? i = some b → j ∈ b.children → ¬ Below o j i

/-- Forests are acyclic. -/
theorem IsForest.isAcyclic {o : Outline} (h : o.IsForest) : o.IsAcyclic :=
  fun hBlock hChild hBelow => Nat.not_le_of_lt (h hBlock hChild).1 (hBelow.le h)

/-! ## Depth -/

section Depth

open Classical in
/-- A block and what lies below it. -/
noncomputable def family (o : Outline) (i : Nat) : Finset Nat :=
  (Finset.range o.blocks.length).filter (Below o i)

/-- How many blocks lie below a block, with itself. -/
noncomputable def rank (o : Outline) (i : Nat) : Nat := (o.family i).card

variable {o : Outline}

end Depth

/-! ## Outputs -/

section Outputs

variable {o : Outline}

end Outputs

/-! ## Pieces and tokens -/

section Children

variable {o : Outline} {output : Nat → String} {b : Block}

end Children

/-- An identity of one repeated digit. -/
def repeated (digit : Char) : String := String.ofList (List.replicate Token.idLength digit)

end PageBlocks.Outline
