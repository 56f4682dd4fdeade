import PageBlocks.Block.Outline
import PageBlocks.Block.Rendering
import PageBlocks.Proofs.Tables

/-!
# Changes of outlines

Which blocks and which names an outline has after a block was replaced, registered, or added as the
child of another one; and what a block reads of its children when it is composed.
-/

set_option autoImplicit false

namespace PageBlocks.Outline

open PageBlocks.Cache

variable (o : Outline)

theorem block?_update (i j : Nat) (f : Block → Block) :
    (o.update i f).block? j = if i = j then (o.block? j).map f else o.block? j := by
  simp only [Outline.update, Outline.block?, List.getElem?_modify]
  by_cases h : i = j
  · simp [h]
  · simp [h]

theorem block?_update_of_ne {i j : Nat} (f : Block → Block) (h : j ≠ i) :
    (o.update i f).block? j = o.block? j := by
  rw [block?_update, if_neg (Ne.symm h)]

theorem block?_update_self (i : Nat) (f : Block → Block) :
    (o.update i f).block? i = (o.block? i).map f := by
  rw [block?_update, if_pos rfl]

theorem find?_update (i : Nat) (f : Block → Block) (name : Value) :
    (o.update i f).find? name = o.find? name := rfl

theorem length_update (i : Nat) (f : Block → Block) :
    (o.update i f).blocks.length = o.blocks.length :=
  List.length_modify ..

theorem find?_register (name other : String) (i : Nat) :
    (o.register (.text name) i).find? (.text other)
      = if name = other then some i else o.find? (.text other) :=
  Table.get?_insert_text _ _ _ _

theorem block?_register (name : Value) (i j : Nat) : (o.register name i).block? j = o.block? j :=
  rfl

variable {o}

theorem lt_of_block?_eq_some {i : Nat} {b : Block} (h : o.block? i = some b) :
    i < o.blocks.length := by
  have hLt := (List.getElem?_eq_some_iff.mp h).1
  exact hLt

/-- The blocks after one more was added as a child of another one. -/
theorem block?_addChild {parent : Nat} {b : Block} (hParent : parent < o.blocks.length) (j : Nat) :
    (o.addChild parent b).2.block? j
      = if j = o.blocks.length then some { b with parent := some parent }
        else if j = parent then
          (o.block? j).map fun above =>
            { above with children := above.children ++ [o.blocks.length] }
        else o.block? j := by
  have hAdd : (o.add b).2.block? j
      = if j = o.blocks.length then some b else o.block? j := by
    simp only [Outline.add, Outline.block?]
    by_cases hj : j = o.blocks.length
    · subst hj
      simp
    · by_cases hLt : j < o.blocks.length
      · simp [List.getElem?_append_left hLt, hj]
      · have hOut : o.blocks.length + 1 ≤ j := by omega
        have hEnd : (o.blocks ++ [b]).length ≤ j := by
          rw [List.length_append]
          exact hOut
        rw [List.getElem?_eq_none hEnd, List.getElem?_eq_none (by omega), if_neg hj]
  have hAttach : (o.addChild parent b).2 = (o.add b).2.attach parent o.blocks.length := rfl
  rw [hAttach]
  simp only [Outline.attach, block?_update, hAdd]
  by_cases hj : j = o.blocks.length
  · subst hj
    have hNe : parent ≠ o.blocks.length := by omega
    simp [hNe]
  · by_cases hp : j = parent
    · subst hp
      simp [hj, Ne.symm hj]
    · simp [hj, hp, Ne.symm hj, Ne.symm hp]

theorem length_addChild (parent : Nat) (b : Block) :
    (o.addChild parent b).2.blocks.length = o.blocks.length + 1 := by
  simp [Outline.addChild, Outline.attach, Outline.add, length_update]

theorem find?_addChild (parent : Nat) (b : Block) (name : Value) :
    (o.addChild parent b).2.find? name = o.find? name := rfl

/-! ## Blocks of changed outlines -/

theorem mem_of_block?_eq_some {i : Nat} {b : Block} (h : o.block? i = some b) : b ∈ o.blocks :=
  List.mem_of_getElem? h

/-- A block after a replacement was there before, or is what the replacement made of one. -/
theorem mem_update {i : Nat} {f : Block → Block} {b : Block} (h : b ∈ (o.update i f).blocks) :
    b ∈ o.blocks ∨ ∃ old ∈ o.blocks, b = f old := by
  obtain ⟨j, hj⟩ := List.mem_iff_getElem?.mp h
  have hBlock : (o.update i f).block? j = some b := hj
  rw [block?_update] at hBlock
  split at hBlock
  · obtain ⟨old, hOld, rfl⟩ := Option.map_eq_some_iff.mp hBlock
    exact Or.inr ⟨old, mem_of_block?_eq_some hOld, rfl⟩
  · exact Or.inl (mem_of_block?_eq_some hBlock)

/-- What replacing keeps holds of all blocks afterwards. -/
theorem forall_mem_update {P : Block → Prop} {i : Nat} {f : Block → Block}
    (h : ∀ b ∈ o.blocks, P b) (hKept : ∀ b, P b → P (f b)) : ∀ b ∈ (o.update i f).blocks, P b := by
  intro b hMem
  rcases mem_update hMem with hOld | ⟨old, hOld, rfl⟩
  · exact h b hOld
  · exact hKept old (h old hOld)

/-- What does not depend on the place in the tree holds of all blocks after one was added. -/
theorem forall_mem_addChild {P : Block → Prop} {parent : Nat} {b : Block}
    (h : ∀ old ∈ o.blocks, P old) (hNew : P b)
    (hParent : ∀ old parent, P old → P { old with parent := parent })
    (hChildren : ∀ old children, P old → P { old with children := children }) :
    ∀ other ∈ (o.addChild parent b).2.blocks, P other := by
  have hAdd : ∀ other ∈ (o.add b).2.blocks, P other := by
    intro other hMem
    rcases List.mem_append.mp hMem with hOld | hHere
    · exact h other hOld
    · exact List.mem_singleton.mp hHere ▸ hNew
  have hChild : ∀ other ∈ ((o.add b).2.update o.blocks.length fun child =>
      { child with parent := some parent }).blocks, P other :=
    forall_mem_update hAdd fun old hOld => hParent old _ hOld
  exact forall_mem_update hChild fun old hOld => hChildren old _ hOld

/-! ## Children -/

/-- The output of the child of a number with its identity, if there is such a child. -/
def childOutput (render : Nat → VaultM String) (o : Outline) (i : Nat) :
    VaultM (Option (String × String)) := do
  match o.block? i with
  | some child => return some (child.id, ← render i)
  | none => return none

/-- A block is composed of the outputs of its children. -/
theorem compose_eq (render : Nat → VaultM String) (b : Block) :
    compose render o b = do
      let rendered ← b.children.filterMapM (childOutput render o)
      return b.splice (Table.ofBindings rendered) := rfl

end PageBlocks.Outline
