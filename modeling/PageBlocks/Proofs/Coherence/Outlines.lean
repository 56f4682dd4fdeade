import PageBlocks.Proofs.Trees

/-!
# Coherent outlines

The registry of an outline and the tree of its blocks say the same: each block is registered under
its name, the registry names nothing else, and every block but the root is a child of exactly the
block that it names as its parent (`Coherent`). A walk from the root then meets the registered
blocks, each of them once (`Coherent.walk`).

Replacing what a block holds keeps this up, and so does declaring a block under a new name that is a
text. Both leave every block its name, its identity and its kind (`Grows`), whatever the names are.
-/

set_option autoImplicit false

namespace PageBlocks.Coherence

/-- The registry and the tree of an outline agree. -/
structure Coherent (o : Outline) : Prop where
  root : ∃ b, o.block? Outline.root = some b ∧ b.name = Outline.rootName ∧ b.parent = none
  registered : ∀ i b, o.block? i = some b → o.find? b.name = some i
  named : ∀ entry ∈ o.registry, ∃ b, o.block? entry.2 = some b ∧ b.name = entry.1
  parent : ∀ i b, o.block? i = some b → i ≠ Outline.root →
    ∃ q above, b.parent = some q ∧ o.block? q = some above ∧ i ∈ above.children
  forest : o.IsForest
  distinct : ∀ i b, o.block? i = some b → b.children.Nodup

/-- Whether the names of all blocks are texts. -/
def TextNamed (o : Outline) : Prop := ∀ i b, o.block? i = some b → ∃ s, b.name = .text s

/-- A block later on: it may have got another content, another mode and further children. -/
structure Keeps (b b' : Block) : Prop where
  name : b'.name = b.name
  owner : b'.owner = b.owner
  id : b'.id = b.id
  kind : b'.kind = b.kind
  lifetime : b'.lifetime = b.lifetime
  transform : b'.transform = b.transform
  parent : b'.parent = b.parent
  children : b.children <+: b'.children

/-- An outline later on: all blocks and all names are still there. -/
structure Grows (o o' : Outline) : Prop where
  kept : ∀ i b, o.block? i = some b → ∃ b', o'.block? i = some b' ∧ Keeps b b'
  found : ∀ name i, o.find? name = some i → o'.find? name = some i

section Growth

variable {o o' o'' : Outline}

theorem Keeps.refl (b : Block) : Keeps b b :=
  ⟨rfl, rfl, rfl, rfl, rfl, rfl, rfl, List.prefix_rfl⟩

theorem Keeps.trans {a b c : Block} (h : Keeps a b) (h' : Keeps b c) : Keeps a c :=
  ⟨h'.name.trans h.name, h'.owner.trans h.owner, h'.id.trans h.id, h'.kind.trans h.kind,
    h'.lifetime.trans h.lifetime, h'.transform.trans h.transform, h'.parent.trans h.parent,
    h.children.trans h'.children⟩

theorem Grows.refl (o : Outline) : Grows o o :=
  ⟨fun _ b h => ⟨b, h, Keeps.refl b⟩, fun _ _ h => h⟩

theorem Grows.trans (h : Grows o o') (h' : Grows o' o'') : Grows o o'' := by
  refine ⟨fun i b hBlock => ?_, fun name i hFind => h'.found name i (h.found name i hFind)⟩
  obtain ⟨b₁, hBlock₁, hKeeps₁⟩ := h.kept i b hBlock
  obtain ⟨b₂, hBlock₂, hKeeps₂⟩ := h'.kept i b₁ hBlock₁
  exact ⟨b₂, hBlock₂, hKeeps₁.trans hKeeps₂⟩

theorem Grows.lt (h : Grows o o') {i : Nat} (hLt : i < o.blocks.length) : i < o'.blocks.length := by
  obtain ⟨b', hBlock', -⟩ := h.kept i o.blocks[i] (List.getElem?_eq_getElem hLt)
  exact Outline.lt_of_block?_eq_some hBlock'

/-- Names that are texts later on were texts before. -/
theorem Grows.textNamed (h : Grows o o') (hNamed : TextNamed o') : TextNamed o := by
  intro i b hBlock
  obtain ⟨b', hBlock', hKeeps⟩ := h.kept i b hBlock
  obtain ⟨s, hName⟩ := hNamed i b' hBlock'
  exact ⟨s, hKeeps.name.symm.trans hName⟩

theorem grows_update {i : Nat} {f : Block → Block} (hKeeps : ∀ b, Keeps b (f b)) :
    Grows o (o.update i f) := by
  refine ⟨fun j b hBlock => ?_, fun _ _ hFind => hFind⟩
  rw [Outline.block?_update, hBlock]
  split
  · exact ⟨f b, rfl, hKeeps b⟩
  · exact ⟨b, rfl, Keeps.refl b⟩

/-- Adding a child leaves the blocks as they are, whatever number the parent has. -/
theorem grows_addNamed (parent : Nat) {b : Block} (hFree : o.find? b.name = none) :
    Grows o ((o.addChild parent b).2.register b.name o.blocks.length) := by
  refine ⟨fun j old hBlock => ?_, fun name i hFind => ?_⟩
  · have hLt := Outline.lt_of_block?_eq_some hBlock
    have hAdd : (o.add b).2.block? j = some old := by
      show (o.blocks ++ [b])[j]? = some old
      rw [List.getElem?_append_left hLt]
      exact hBlock
    have hAttach : (o.addChild parent b).2 = (o.add b).2.attach parent o.blocks.length := rfl
    rw [Outline.block?_register, hAttach, Outline.attach, Outline.block?_update,
      Outline.block?_update, if_neg (Nat.ne_of_gt hLt), hAdd]
    split
    · exact ⟨_, rfl, rfl, rfl, rfl, rfl, rfl, rfl, rfl, List.prefix_append _ _⟩
    · exact ⟨old, rfl, Keeps.refl old⟩
  · show Table.get? (Table.insert o.registry b.name _) name = some i
    rw [Table.insert_eq_append _ hFree]
    exact Table.get?_append_of_eq_some hFind

/-- A block is the new one, or an old one that may have got the new one as its last child. -/
theorem cases_of_addNamed {parent j : Nat} {b c : Block} (hParent : parent < o.blocks.length)
    (hBlock : ((o.addChild parent b).2.register b.name o.blocks.length).block? j = some c) :
    j = o.blocks.length ∧ c = { b with parent := some parent }
      ∨ ∃ old, o.block? j = some old ∧ c.name = old.name ∧ c.parent = old.parent
        ∧ (c.children = old.children
          ∨ j = parent ∧ c.children = old.children ++ [o.blocks.length]) := by
  rw [Outline.block?_register, Outline.block?_addChild hParent] at hBlock
  split at hBlock
  · cases hBlock
    exact .inl ⟨‹_›, rfl⟩
  · split at hBlock
    · obtain ⟨old, hOld, rfl⟩ := Option.map_eq_some_iff.mp hBlock
      exact .inr ⟨old, hOld, rfl, rfl, .inr ⟨‹_›, rfl⟩⟩
    · exact .inr ⟨c, hBlock, rfl, rfl, .inl rfl⟩

theorem block?_addNamed_new {parent : Nat} (b : Block) (hParent : parent < o.blocks.length) :
    ((o.addChild parent b).2.register b.name o.blocks.length).block? o.blocks.length
      = some { b with parent := some parent } := by
  rw [Outline.block?_register, Outline.block?_addChild hParent, if_pos rfl]

theorem exists_block?_addNamed_parent {parent : Nat} (b : Block)
    (hParent : parent < o.blocks.length) :
    ∃ above, ((o.addChild parent b).2.register b.name o.blocks.length).block? parent = some above
      ∧ o.blocks.length ∈ above.children := by
  rw [Outline.block?_register, Outline.block?_addChild hParent, if_neg (Nat.ne_of_lt hParent),
    if_pos rfl, Outline.block?, List.getElem?_eq_getElem hParent]
  exact ⟨_, rfl, List.mem_append_right _ (List.mem_singleton_self _)⟩

end Growth

section Coherence

variable {o : Outline} {i j : Nat} {b : Block}

theorem coherent_start (owner : String) : Coherent (Outline.start owner) := by
  have hOnly : ∀ {j b}, (Outline.start owner).block? j = some b →
      j = Outline.root ∧ b = Block.plain owner Outline.rootName := by
    intro j b hBlock
    cases j with
    | zero => exact ⟨rfl, (Option.some.inj hBlock).symm⟩
    | succ j => cases hBlock
  constructor
  case root => exact ⟨_, rfl, rfl, rfl⟩
  case registered =>
    intro j b hBlock
    obtain ⟨rfl, rfl⟩ := hOnly hBlock
    rfl
  case named =>
    intro entry hMem
    obtain rfl := List.mem_singleton.mp hMem
    exact ⟨_, rfl, rfl⟩
  case parent =>
    intro j b hBlock hNe
    exact absurd (hOnly hBlock).1 hNe
  case forest =>
    intro i j b hBlock hChild
    obtain ⟨-, rfl⟩ := hOnly hBlock
    cases hChild
  case distinct =>
    intro j b hBlock
    obtain ⟨-, rfl⟩ := hOnly hBlock
    exact List.nodup_nil

/-- Two blocks with the same place in the tree. -/
structure SamePlace (b b' : Block) : Prop where
  name : b'.name = b.name
  parent : b'.parent = b.parent
  children : b'.children = b.children

/-- Where a block is replaced by one with the same place, every block stands for an old one. -/
theorem exists_of_update {f : Block → Block} (hSame : ∀ b, SamePlace b (f b))
    (hBlock : (o.update i f).block? j = some b) :
    ∃ old, o.block? j = some old ∧ SamePlace old b := by
  rw [Outline.block?_update] at hBlock
  split at hBlock
  · obtain ⟨old, hOld, rfl⟩ := Option.map_eq_some_iff.mp hBlock
    exact ⟨old, hOld, hSame old⟩
  · exact ⟨b, hBlock, rfl, rfl, rfl⟩

theorem exists_in_update {f : Block → Block} (hSame : ∀ b, SamePlace b (f b))
    (hBlock : o.block? j = some b) :
    ∃ new, (o.update i f).block? j = some new ∧ SamePlace b new := by
  rw [Outline.block?_update, hBlock]
  split
  · exact ⟨f b, rfl, hSame b⟩
  · exact ⟨b, rfl, rfl, rfl, rfl⟩

namespace Coherent

theorem root_lt (h : Coherent o) : Outline.root < o.blocks.length := by
  obtain ⟨b, hBlock, -⟩ := h.root
  exact Outline.lt_of_block?_eq_some hBlock

/-- Replacing what a block holds. -/
theorem update (h : Coherent o) {f : Block → Block} (hSame : ∀ b, SamePlace b (f b)) :
    Coherent (o.update i f) := by
  constructor
  case root =>
    obtain ⟨old, hBlock, hRoot, hTop⟩ := h.root
    obtain ⟨b, hBlock', hPlace⟩ := exists_in_update hSame hBlock
    exact ⟨b, hBlock', hPlace.name.trans hRoot, hPlace.parent.trans hTop⟩
  case registered =>
    intro j b hBlock
    obtain ⟨old, hBlock', hPlace⟩ := exists_of_update hSame hBlock
    rw [hPlace.name]
    exact h.registered j old hBlock'
  case named =>
    intro entry hMem
    obtain ⟨old, hBlock, hEntry⟩ := h.named entry hMem
    obtain ⟨b, hBlock', hPlace⟩ := exists_in_update hSame hBlock
    exact ⟨b, hBlock', hPlace.name.trans hEntry⟩
  case parent =>
    intro j b hBlock hNe
    obtain ⟨old, hBlock', hPlace⟩ := exists_of_update hSame hBlock
    obtain ⟨q, above, hUp, hAbove, hMem⟩ := h.parent j old hBlock' hNe
    obtain ⟨above', hAbove', hPlace'⟩ := exists_in_update hSame hAbove
    exact ⟨q, above', hPlace.parent.trans hUp, hAbove', hPlace'.children ▸ hMem⟩
  case forest =>
    intro j k b hBlock hChild
    obtain ⟨old, hBlock', hPlace⟩ := exists_of_update hSame hBlock
    rw [hPlace.children] at hChild
    obtain ⟨hLt, c, hc, hUp⟩ := h.forest hBlock' hChild
    obtain ⟨c', hc', hPlace'⟩ := exists_in_update hSame hc
    exact ⟨hLt, c', hc', hPlace'.parent.trans hUp⟩
  case distinct =>
    intro j b hBlock
    obtain ⟨old, hBlock', hPlace⟩ := exists_of_update hSame hBlock
    rw [hPlace.children]
    exact h.distinct j old hBlock'

/-- Declaring a block under a new name that is a text. -/
theorem addNamed (h : Coherent o) {parent : Nat} (hParent : parent < o.blocks.length)
    {name : String} (hName : b.name = .text name) (hChildren : b.children = [])
    (hFree : o.find? b.name = none) :
    Coherent ((o.addChild parent b).2.register b.name o.blocks.length) := by
  have hGrows := grows_addNamed parent hFree
  have hSelf := block?_addNamed_new b hParent
  constructor
  case root =>
    obtain ⟨old, hBlock, hRoot, hTop⟩ := h.root
    obtain ⟨c, hBlock', hKeeps⟩ := hGrows.kept _ old hBlock
    exact ⟨c, hBlock', hKeeps.name.trans hRoot, hKeeps.parent.trans hTop⟩
  case registered =>
    intro j c hBlock
    rcases cases_of_addNamed hParent hBlock with ⟨rfl, rfl⟩ | ⟨old, hOld, hSame, -⟩
    · show Table.get? (Table.insert _ b.name _) b.name = _
      rw [hName, Table.get?_insert_text, if_pos rfl]
    · rw [hSame]
      exact hGrows.found _ _ (h.registered j old hOld)
  case named =>
    intro entry hMem
    have hRegistry : ((o.addChild parent b).2.register b.name o.blocks.length).registry
        = o.registry ++ [(b.name, o.blocks.length)] := Table.insert_eq_append _ hFree
    rw [hRegistry, List.mem_append, List.mem_singleton] at hMem
    rcases hMem with hOld | rfl
    · obtain ⟨old, hBlock, hEntry⟩ := h.named entry hOld
      obtain ⟨c, hBlock', hKeeps⟩ := hGrows.kept _ old hBlock
      exact ⟨c, hBlock', hKeeps.name.trans hEntry⟩
    · exact ⟨_, hSelf, rfl⟩
  case parent =>
    intro j c hBlock hNe
    rcases cases_of_addNamed hParent hBlock with ⟨rfl, rfl⟩ | ⟨old, hOld, -, hUp, -⟩
    · obtain ⟨above, hAbove, hMem⟩ := exists_block?_addNamed_parent b hParent
      exact ⟨parent, above, rfl, hAbove, hMem⟩
    · obtain ⟨q, above, hParent', hAbove, hMem⟩ := h.parent j old hOld hNe
      obtain ⟨above', hAbove', hKeeps⟩ := hGrows.kept q above hAbove
      exact ⟨q, above', hUp.trans hParent', hAbove', hKeeps.children.subset hMem⟩
  case forest =>
    intro j k c hBlock hChild
    have hOldChild : ∀ {old}, o.block? j = some old → k ∈ old.children →
        j < k ∧ ∃ d, ((o.addChild parent b).2.register b.name o.blocks.length).block? k = some d
          ∧ d.parent = some j := by
      intro old hOld hMem
      obtain ⟨hLt, d, hd, hUp⟩ := h.forest hOld hMem
      obtain ⟨d', hd', hKeeps⟩ := hGrows.kept k d hd
      exact ⟨hLt, d', hd', hKeeps.parent.trans hUp⟩
    rcases cases_of_addNamed hParent hBlock with
      ⟨rfl, rfl⟩ | ⟨old, hOld, -, -, hSame | ⟨rfl, hMore⟩⟩
    · rw [hChildren] at hChild
      cases hChild
    · exact hOldChild hOld (hSame ▸ hChild)
    · rw [hMore, List.mem_append, List.mem_singleton] at hChild
      rcases hChild with hMem | rfl
      · exact hOldChild hOld hMem
      · exact ⟨hParent, _, hSelf, rfl⟩
  case distinct =>
    intro j c hBlock
    rcases cases_of_addNamed hParent hBlock with
      ⟨rfl, rfl⟩ | ⟨old, hOld, -, -, hSame | ⟨rfl, hMore⟩⟩
    · rw [hChildren]
      exact List.nodup_nil
    · rw [hSame]
      exact h.distinct j old hOld
    · rw [hMore]
      refine List.nodup_append.mpr ⟨h.distinct j old hOld, List.nodup_singleton _, ?_⟩
      intro k hMem l hLast
      obtain ⟨-, d, hd, -⟩ := h.forest hOld hMem
      rw [List.mem_singleton.mp hLast]
      exact Nat.ne_of_lt (Outline.lt_of_block?_eq_some hd)

/-- Every block lies below the root: going up from parent to parent ends there. -/
theorem below_root (h : Coherent o) (hBlock : o.block? i = some b) : o.Below Outline.root i := by
  induction i using Nat.strongRecOn generalizing b with
  | ind i ih =>
    by_cases hRoot : i = Outline.root
    · rw [hRoot]
      exact .self
    · obtain ⟨q, above, -, hAbove, hMem⟩ := h.parent i b hBlock hRoot
      exact .child (ih q (h.forest hAbove hMem).1 hAbove) hAbove hMem

/-- A walk from the root meets the registered blocks, each of them once. -/
theorem walk (h : Coherent o) :
    (o.walkFrom (o.blocks.length + 1) Outline.root).Nodup
      ∧ ∀ i, i ∈ o.walkFrom (o.blocks.length + 1) Outline.root
        ↔ ∃ name, (name, i) ∈ o.registry := by
  refine ⟨Outline.nodup_walkFrom h.forest h.distinct _ _, fun i => ?_⟩
  rw [Outline.mem_walkFrom_iff h.forest (by omega) h.root_lt]
  constructor
  · intro hBelow
    obtain ⟨b, hBlock⟩ : ∃ b, o.block? i = some b := by
      cases hBelow with
      | self =>
        obtain ⟨b, hBlock, -⟩ := h.root
        exact ⟨b, hBlock⟩
      | child _ hAbove hMem =>
        obtain ⟨-, b, hBlock, -⟩ := h.forest hAbove hMem
        exact ⟨b, hBlock⟩
    exact Table.exists_mem_of_get?_eq_some (h.registered i b hBlock)
  · rintro ⟨name, hMem⟩
    obtain ⟨b, hBlock, -⟩ := h.named _ hMem
    exact h.below_root hBlock

end Coherent

end Coherence

end PageBlocks.Coherence
