import PageBlocks.Proofs.Inheritance.Splice
import PageBlocks.Proofs.Outlines

/-!
# Outlines that mirror a ledger

While bodies run, the outline of their page and the ledger of what was read so far say the same: the
same blocks under the same names, each with the owner, the kind and the lifetime that the ledger has
for it, and with the content that its recorded pieces write. Every hole in the pieces of a block
stands for a child of it, children come after their parents, and no block is the child of two
(`Mirrors`). Opening a new block and closing a block keep this up, and they leave what was there in
its place (`Grows`).
-/

set_option autoImplicit false

namespace PageBlocks.Inheritance

/-! ## Ledgers -/

/-- Joined pieces come from either side. -/
theorem mem_of_mem_join {mode : ApplyMode} {old new : List Piece} {piece : Piece}
    (h : piece ∈ join mode old new) : piece ∈ old ∨ piece ∈ new := by
  cases mode with
  | replace => exact Or.inr h
  | prepend => exact (List.mem_append.mp h).symm
  | append => exact List.mem_append.mp h

namespace Ledger

theorem get?_eq_some_of_has {blocks : Ledger} {name : String} (h : blocks.has name = true) :
    ∃ holding, blocks.get? name = some holding :=
  Option.isSome_iff_exists.mp h

theorem has_of_get?_eq_some {blocks : Ledger} {name : String} {holding : Holding}
    (h : blocks.get? name = some holding) : blocks.has name = true :=
  Option.isSome_iff_exists.mpr ⟨holding, h⟩

theorem ownerOf_of_get?_eq_some {blocks : Ledger} {name : String} {holding : Holding}
    (h : blocks.get? name = some holding) : blocks.ownerOf name = holding.owner := by
  simp [ownerOf, h]

theorem get?_record_self {blocks : Ledger} {name : String} {holding : Holding} (mode : ApplyMode)
    (new : List Piece) (h : blocks.get? name = some holding) :
    (blocks.record mode name new).get? name
      = some { holding with pieces := join mode holding.pieces new } := by
  simp only [record, h]
  exact Table.get?_insert_self _ _ _

theorem get?_record_of_ne {blocks : Ledger} {name other : String} (mode : ApplyMode)
    (new : List Piece) (h : other ≠ name) :
    (blocks.record mode name new).get? other = blocks.get? other := by
  unfold record
  split
  · exact Table.get?_insert_of_ne _ _ h
  · rfl

theorem length_record (blocks : Ledger) (mode : ApplyMode) (name : String) (new : List Piece) :
    (blocks.record mode name new).length = blocks.length := by
  unfold record
  split
  · rename_i holding hFound
    exact Table.length_insert_of_has _ (has_of_get?_eq_some hFound)
  · rfl

/-- Completing a declaration changes no owner, so that tokens stay what they are. -/
theorem idOf_record (blocks : Ledger) (mode : ApplyMode) (name other : String)
    (new : List Piece) : (blocks.record mode name new).idOf other = blocks.idOf other := by
  have hOwner : (blocks.record mode name new).ownerOf other = blocks.ownerOf other := by
    by_cases hName : other = name
    · subst hName
      cases hFound : blocks.get? other with
      | none => simp [record, hFound]
      | some holding => simp [ownerOf, get?_record_self mode new hFound, hFound]
    · simp only [ownerOf, get?_record_of_ne mode new hName]
  simp only [idOf, hOwner]

theorem written_record (blocks : Ledger) (mode : ApplyMode) (name : String)
    (new pieces : List Piece) :
    (blocks.record mode name new).written pieces = blocks.written pieces := by
  simp only [written, idOf_record]

/-- What pieces write depends on the owners of their holes alone. -/
theorem written_congr {blocks other : Ledger} {pieces : List Piece}
    (h : ∀ name, Piece.hole name ∈ pieces → other.ownerOf name = blocks.ownerOf name) :
    other.written pieces = blocks.written pieces := by
  refine fillWith_congr fun name hMem => ?_
  simp only [idOf, h name hMem]

end Ledger

/-- The kind of a block with the given holding. -/
def Holding.kind (holding : Holding) : BlockKind :=
  if holding.lifetime?.isSome then .cacheable else .plain

/-! ## The invariant -/

/-- A block of an outline is as the ledger has it. -/
structure Pictured (blocks : Ledger) (o : Outline) (i : Nat) (name : String) (holding : Holding)
    (b : Block) : Prop where
  called : b.name = .text name
  owner : b.owner = holding.owner
  id : b.id = Identity.block holding.owner (.text name)
  kind : b.kind = holding.kind
  lifetime : b.lifetime = holding.lifetime?.getD .null
  transform : b.transform = none
  content : b.content = blocks.written holding.pieces
  clean : ∀ piece ∈ holding.pieces, piece.IsClean
  holes : ∀ child, Piece.hole child ∈ holding.pieces →
    ∃ j ∈ b.children, o.find? (.text child) = some j
  children : ∀ j ∈ b.children, i < j ∧ ∃ c, o.block? j = some c ∧ c.parent = some i
  distinct : b.children.Nodup

/-- An outline has the blocks of a ledger. -/
structure Mirrors (blocks : Ledger) (o : Outline) : Prop where
  size : o.blocks.length = blocks.length
  root : o.find? (.text root) = some Outline.root
  named : ∀ i b, o.block? i = some b → ∃ name, b.name = .text name ∧ o.find? (.text name) = some i
  listed : ∀ name i, o.find? (.text name) = some i → blocks.has name = true
  pictured : ∀ name holding, blocks.get? name = some holding →
    ∃ i b, o.find? (.text name) = some i ∧ o.block? i = some b ∧ Pictured blocks o i name holding b

namespace Mirrors

variable {blocks : Ledger} {o : Outline}

/-- The block of a number and the holding that it pictures. -/
theorem holding (m : Mirrors blocks o) {i : Nat} {b : Block} (h : o.block? i = some b) :
    ∃ name holding, o.find? (.text name) = some i ∧ blocks.get? name = some holding
      ∧ Pictured blocks o i name holding b := by
  obtain ⟨name, -, hFind⟩ := m.named i b h
  obtain ⟨held, hHeld⟩ := Ledger.get?_eq_some_of_has (m.listed name i hFind)
  obtain ⟨j, c, hFindJ, hBlock, hPictured⟩ := m.pictured name held hHeld
  rw [hFind] at hFindJ
  cases hFindJ
  rw [h] at hBlock
  cases hBlock
  exact ⟨name, held, hFind, hHeld, hPictured⟩

/-- The block of a name and the holding that it pictures. -/
theorem found (m : Mirrors blocks o) {name : String} {i : Nat}
    (h : o.find? (.text name) = some i) :
    ∃ holding b, blocks.get? name = some holding ∧ o.block? i = some b
      ∧ Pictured blocks o i name holding b := by
  obtain ⟨held, hHeld⟩ := Ledger.get?_eq_some_of_has (m.listed name i h)
  obtain ⟨j, c, hFindJ, hBlock, hPictured⟩ := m.pictured name held hHeld
  rw [h] at hFindJ
  cases hFindJ
  exact ⟨held, c, hHeld, hBlock, hPictured⟩

/-- What the ledger does not list is not registered. -/
theorem find?_eq_none (m : Mirrors blocks o) {name : String} (h : blocks.get? name = none) :
    o.find? (.text name) = none := by
  cases hFind : o.find? (.text name) with
  | none => rfl
  | some i =>
    have hListed := m.listed name i hFind
    simp [Table.has, h] at hListed

/-- No two names have one number. -/
theorem name_unique (m : Mirrors blocks o) {name other : String} {i : Nat}
    (h : o.find? (.text name) = some i) (hOther : o.find? (.text other) = some i) :
    name = other := by
  obtain ⟨held, b, -, hBlock, hPictured⟩ := m.found h
  obtain ⟨heldC, c, -, hBlockC, hPicturedC⟩ := m.found hOther
  rw [hBlock] at hBlockC
  cases hBlockC
  have hNames := hPictured.called.symm.trans hPicturedC.called
  exact Value.text.inj hNames

/-- The owner of a block is the one that the ledger has. -/
theorem owner_eq (m : Mirrors blocks o) {name : String} {i : Nat} {b : Block}
    (hFind : o.find? (.text name) = some i) (hBlock : o.block? i = some b) :
    blocks.ownerOf name = b.owner := by
  obtain ⟨held, c, hHeld, hBlockC, hPictured⟩ := m.found hFind
  rw [hBlock] at hBlockC
  cases hBlockC
  rw [Ledger.ownerOf_of_get?_eq_some hHeld, hPictured.owner]

end Mirrors

/-- What a later outline keeps of an earlier one: names, owners and children stay, and the blocks of
the given numbers stay open as they are. -/
structure Grows (held : List Nat) (o o' : Outline) : Prop where
  found : ∀ name i, o.find? (.text name) = some i → o'.find? (.text name) = some i
  kept : ∀ i b, o.block? i = some b → ∃ b', o'.block? i = some b' ∧ b'.owner = b.owner
    ∧ (∀ j ∈ b.children, j ∈ b'.children)
    ∧ (i ∈ held → b'.mode = b.mode ∧ b'.extended = b.extended)

namespace Grows

variable {held : List Nat} {o o' o'' : Outline}

theorem refl (held : List Nat) (o : Outline) : Grows held o o :=
  ⟨fun _ _ h => h, fun _ b h => ⟨b, h, rfl, fun _ hMem => hMem, fun _ => ⟨rfl, rfl⟩⟩⟩

theorem trans {more : List Nat} (h : Grows held o o') (h' : Grows more o' o'')
    (hHeld : ∀ i ∈ held, i ∈ more) : Grows held o o'' := by
  refine ⟨fun name i hFind => h'.found name i (h.found name i hFind), fun i b hBlock => ?_⟩
  obtain ⟨b', hBlock', hOwner, hChildren, hFlags⟩ := h.kept i b hBlock
  obtain ⟨b'', hBlock'', hOwner', hChildren', hFlags'⟩ := h'.kept i b' hBlock'
  refine ⟨b'', hBlock'', hOwner'.trans hOwner, fun j hMem => hChildren' j (hChildren j hMem), ?_⟩
  intro hMem
  have hFirst := hFlags hMem
  have hSecond := hFlags' (hHeld i hMem)
  exact ⟨hSecond.1.trans hFirst.1, hSecond.2.trans hFirst.2⟩

/-- Changing a block that is not held, other than in its owner and its children. -/
theorem update {i : Nat} {f : Block → Block} (hOwner : ∀ b, (f b).owner = b.owner)
    (hChildren : ∀ b, (f b).children = b.children)
    (hFlags : i ∈ held → ∀ b, (f b).mode = b.mode ∧ (f b).extended = b.extended) :
    Grows held o (o.update i f) := by
  refine ⟨fun _ _ h => h, fun j b hBlock => ?_⟩
  by_cases hj : j = i
  · subst hj
    refine ⟨f b, ?_, hOwner b, ?_, fun hMem => hFlags hMem b⟩
    · rw [Outline.block?_update_self, hBlock]
      rfl
    · intro k hMem
      rw [hChildren]
      exact hMem
  · refine ⟨b, ?_, rfl, fun _ hMem => hMem, fun _ => ⟨rfl, rfl⟩⟩
    rw [Outline.block?_update_of_ne o f hj, hBlock]

/-- The owners that a ledger has stay the same when its outline grows. -/
theorem ownerOf_eq {blocks blocks' : Ledger} (h : Grows held o o') (m : Mirrors blocks o)
    (m' : Mirrors blocks' o') {name : String} {i : Nat} (hFind : o.find? (.text name) = some i) :
    blocks'.ownerOf name = blocks.ownerOf name := by
  obtain ⟨-, b, -, hBlock, -⟩ := m.found hFind
  obtain ⟨b', hBlock', hOwner, -, -⟩ := h.kept i b hBlock
  rw [m.owner_eq hFind hBlock, m'.owner_eq (h.found name i hFind) hBlock', hOwner]

end Grows

/-! ## Steps -/

/-- A block stays pictured when nothing but its flags changes and its children become more. -/
theorem Pictured.mono {blocks blocks' : Ledger} {o o' : Outline} {i : Nat} {name : String}
    {holding : Holding} {b b' : Block} (h : Pictured blocks o i name holding b)
    (hCore : ∃ mode extended parent children, b' = { b with mode, extended, parent, children })
    (hWritten : blocks'.written holding.pieces = blocks.written holding.pieces)
    (hFound : ∀ name k, o.find? (.text name) = some k → o'.find? (.text name) = some k)
    (hMore : ∀ j ∈ b.children, j ∈ b'.children)
    (hChildren : ∀ j ∈ b'.children, i < j ∧ ∃ c, o'.block? j = some c ∧ c.parent = some i)
    (hDistinct : b'.children.Nodup) : Pictured blocks' o' i name holding b' := by
  obtain ⟨mode, extended, parent, children, rfl⟩ := hCore
  exact
    { called := h.called
      owner := h.owner
      id := h.id
      kind := h.kind
      lifetime := h.lifetime
      transform := h.transform
      content := h.content.trans hWritten.symm
      clean := h.clean
      holes := by
        intro child hHole
        obtain ⟨j, hMem, hFind⟩ := h.holes child hHole
        exact ⟨j, hMore j hMem, hFound child j hFind⟩
      children := hChildren
      distinct := hDistinct }

namespace Mirrors

variable {blocks : Ledger} {o : Outline}

/-- Changing the flags of a block changes nothing that the ledger has. -/
theorem update_flags (m : Mirrors blocks o) (i : Nat) {f : Block → Block}
    (hFlags : ∀ b, ∃ mode extended, f b = { b with mode, extended }) :
    Mirrors blocks (o.update i f) := by
  -- every block is as before, up to its flags
  have hBlock : ∀ j b, o.block? j = some b →
      ∃ mode extended, (o.update i f).block? j = some { b with mode, extended } := by
    intro j b hj
    by_cases hi : j = i
    · subst hi
      obtain ⟨mode, extended, hf⟩ := hFlags b
      refine ⟨mode, extended, ?_⟩
      rw [Outline.block?_update_self, hj, Option.map_some, hf]
    · refine ⟨b.mode, b.extended, ?_⟩
      rw [Outline.block?_update_of_ne o f hi, hj]
  refine
    { size := (Outline.length_update o i f).trans m.size
      root := m.root
      named := ?_
      listed := m.listed
      pictured := ?_ }
  · intro j b hj
    by_cases hi : j = i
    · subst hi
      rw [Outline.block?_update_self, Option.map_eq_some_iff] at hj
      obtain ⟨b, hb, rfl⟩ := hj
      obtain ⟨mode, extended, hf⟩ := hFlags b
      rw [hf]
      exact m.named j b hb
    · rw [Outline.block?_update_of_ne o f hi] at hj
      exact m.named j b hj
  · intro name held hHeld
    obtain ⟨j, b, hFind, hj, hPictured⟩ := m.pictured name held hHeld
    obtain ⟨mode, extended, hj'⟩ := hBlock j b hj
    refine ⟨j, _, hFind, hj', ?_⟩
    refine hPictured.mono ⟨mode, extended, b.parent, b.children, rfl⟩ rfl (fun _ _ h => h)
      (fun _ h => h) ?_ hPictured.distinct
    intro k hMem
    obtain ⟨hLt, c, hc, hParent⟩ := hPictured.children k hMem
    obtain ⟨mode, extended, hk⟩ := hBlock k c hc
    exact ⟨hLt, _, hk, hParent⟩

end Mirrors

/-- The block that a first declaration adds for a holding. -/
def Holding.newBlock (holding : Holding) (name : String) : Block :=
  { Block.plain holding.owner (.text name) with
    kind := holding.kind
    lifetime := holding.lifetime?.getD .null }

/-- The outline with a first declaration of a block. -/
def addNamed (o : Outline) (parent : Nat) (name : String) (b : Block) : Outline :=
  (o.addChild parent b).2.register (.text name) o.blocks.length

section Adding

variable {o : Outline} {parent : Nat} {name : String} {b : Block}

theorem find?_addNamed (other : String) :
    (addNamed o parent name b).find? (.text other)
      = if name = other then some o.blocks.length else o.find? (.text other) := by
  rw [addNamed, Outline.find?_register, Outline.find?_addChild]

theorem block?_addNamed (hParent : parent < o.blocks.length) (j : Nat) :
    (addNamed o parent name b).block? j
      = if j = o.blocks.length then some { b with parent := some parent }
        else if j = parent then
          (o.block? j).map fun above =>
            { above with children := above.children ++ [o.blocks.length] }
        else o.block? j :=
  Outline.block?_addChild hParent j

/-- The blocks that were there are still there, and only the parent has another child. -/
theorem block?_addNamed_of_eq_some (hParent : parent < o.blocks.length) {j : Nat} {c : Block}
    (h : o.block? j = some c) :
    (addNamed o parent name b).block? j
      = some { c with
          children := if j = parent then c.children ++ [o.blocks.length] else c.children } := by
  have hNe : j ≠ o.blocks.length := Nat.ne_of_lt (Outline.lt_of_block?_eq_some h)
  rw [block?_addNamed hParent, if_neg hNe]
  by_cases hj : j = parent
  · simp [hj, hj ▸ h]
  · simp [hj, h]

theorem block?_addNamed_self (hParent : parent < o.blocks.length) :
    (addNamed o parent name b).block? o.blocks.length = some { b with parent := some parent } := by
  rw [block?_addNamed hParent, if_pos rfl]

/-- A first declaration leaves the blocks in their places. -/
theorem Grows.addNamed (held : List Nat) (hParent : parent < o.blocks.length)
    (hName : o.find? (.text name) = none) : Grows held o (addNamed o parent name b) := by
  refine ⟨fun other i hFind => ?_, fun i c hBlock => ?_⟩
  · have hNe : name ≠ other := by
      intro hSame
      rw [hSame, hFind] at hName
      cases hName
    rw [find?_addNamed, if_neg hNe, hFind]
  · refine ⟨_, block?_addNamed_of_eq_some hParent hBlock, rfl, fun j hMem => ?_,
      fun _ => ⟨rfl, rfl⟩⟩
    by_cases hi : i = parent
    · simp [hi, hMem]
    · simp [hi, hMem]

end Adding

namespace Mirrors

variable {blocks : Ledger} {o : Outline}

/-- What is written does not change when a name is listed that no hole has. -/
theorem written_insert (m : Mirrors blocks o) {name other : String} {holding new : Holding}
    (hHeld : blocks.get? other = some holding) (hName : blocks.get? name = none) :
    Ledger.written (blocks.insert name new) holding.pieces = blocks.written holding.pieces := by
  refine Ledger.written_congr fun child hHole => ?_
  obtain ⟨i, b, -, -, hPictured⟩ := m.pictured other holding hHeld
  obtain ⟨j, -, hFind⟩ := hPictured.holes child hHole
  have hNe : child ≠ name := by
    intro hSame
    rw [hSame, m.find?_eq_none hName] at hFind
    cases hFind
  simp only [Ledger.ownerOf, Table.get?_insert_of_ne _ _ hNe]

/-- A new block holds nothing and has no children. -/
theorem pictured_newBlock {i : Nat} {name : String} {holding : Holding} (up : Option Nat)
    (hPieces : holding.pieces = []) :
    Pictured blocks o i name holding { holding.newBlock name with parent := up } where
  called := rfl
  owner := rfl
  id := rfl
  kind := rfl
  lifetime := rfl
  transform := rfl
  content := by rw [hPieces]; rfl
  clean := by simp [hPieces]
  holes := by simp [hPieces]
  children := by intro j hMem; cases hMem
  distinct := List.nodup_nil

/-- An old block may have the new one as its last child. -/
theorem pictured_addNamed (m : Mirrors blocks o) {parent i : Nat} {name other : String}
    {holding held : Holding} {b new : Block} (hParent : parent < o.blocks.length)
    (hName : blocks.get? name = none) (hHeld : blocks.get? other = some held)
    (hPictured : Pictured blocks o i other held b) :
    Pictured (blocks.insert name holding) (addNamed o parent name new) i other held { b with
      children := if i = parent then b.children ++ [o.blocks.length] else b.children } := by
  have hGrows : Grows [] o (addNamed o parent name new) :=
    Grows.addNamed [] hParent (m.find?_eq_none hName)
  have hOld : ∀ j ∈ b.children, j < o.blocks.length := by
    intro j hMem
    obtain ⟨-, c, hc, -⟩ := hPictured.children j hMem
    exact Outline.lt_of_block?_eq_some hc
  have hOldChild : ∀ j ∈ b.children, i < j ∧
      ∃ c, (addNamed o parent name new).block? j = some c ∧ c.parent = some i := by
    intro j hMem
    obtain ⟨hLt, c, hc, hUp⟩ := hPictured.children j hMem
    exact ⟨hLt, _, block?_addNamed_of_eq_some hParent hc, hUp⟩
  by_cases hi : i = parent
  · subst hi
    rw [if_pos rfl]
    refine hPictured.mono ⟨b.mode, b.extended, b.parent, _, rfl⟩ (m.written_insert hHeld hName)
      hGrows.found (fun j hMem => List.mem_append_left _ hMem) ?_ ?_
    · intro j hMem
      rcases List.mem_append.mp hMem with hMem | hMem
      · exact hOldChild j hMem
      · rw [List.mem_singleton.mp hMem]
        exact ⟨hParent, _, block?_addNamed_self hParent, rfl⟩
    · refine List.nodup_append.mpr ⟨hPictured.distinct, by simp, ?_⟩
      intro j hMem k hLast
      exact List.mem_singleton.mp hLast ▸ Nat.ne_of_lt (hOld j hMem)
  · rw [if_neg hi]
    exact hPictured.mono ⟨b.mode, b.extended, b.parent, _, rfl⟩ (m.written_insert hHeld hName)
      hGrows.found (fun _ hMem => hMem) hOldChild hPictured.distinct

/-- A first declaration of a block in the outline is one in the ledger. -/
theorem declare_new (m : Mirrors blocks o) {parent : Nat} {name : String} {holding : Holding}
    (hParent : parent < o.blocks.length) (hName : blocks.get? name = none)
    (hPieces : holding.pieces = []) :
    Mirrors (blocks.insert name holding) (addNamed o parent name (holding.newBlock name)) := by
  have hGrows : Grows [] o (addNamed o parent name (holding.newBlock name)) :=
    Grows.addNamed [] hParent (m.find?_eq_none hName)
  refine
    { size := ?_
      root := hGrows.found _ _ m.root
      named := ?_
      listed := ?_
      pictured := ?_ }
  · rw [Table.length_insert_of_get?_eq_none _ hName, ← m.size]
    exact Outline.length_addChild _ _
  · intro i b hBlock
    by_cases hNew : i = o.blocks.length
    · subst hNew
      rw [block?_addNamed_self hParent] at hBlock
      cases hBlock
      refine ⟨name, rfl, ?_⟩
      rw [find?_addNamed, if_pos rfl]
    · rw [block?_addNamed hParent, if_neg hNew] at hBlock
      obtain ⟨c, hc, hCalled⟩ : ∃ c, o.block? i = some c ∧ b.name = c.name := by
        split at hBlock
        · obtain ⟨c, hc, rfl⟩ := Option.map_eq_some_iff.mp hBlock
          exact ⟨c, hc, rfl⟩
        · exact ⟨b, hBlock, rfl⟩
      obtain ⟨other, hOther, hFind⟩ := m.named i c hc
      exact ⟨other, hCalled.trans hOther, hGrows.found _ _ hFind⟩
  · intro other i hFind
    by_cases hSame : name = other
    · subst hSame
      exact Ledger.has_of_get?_eq_some (Table.get?_insert_self _ _ _)
    · rw [find?_addNamed, if_neg hSame] at hFind
      have hListed := m.listed other i hFind
      rw [Table.has, Table.get?_insert_of_ne _ _ (Ne.symm hSame)]
      exact hListed
  · intro other held hHeld
    by_cases hSame : other = name
    · subst hSame
      rw [Table.get?_insert_self] at hHeld
      cases hHeld
      refine ⟨o.blocks.length, _, ?_, block?_addNamed_self hParent,
        pictured_newBlock (some parent) hPieces⟩
      rw [find?_addNamed, if_pos rfl]
    · rw [Table.get?_insert_of_ne _ _ hSame] at hHeld
      obtain ⟨i, b, hFind, hBlock, hPictured⟩ := m.pictured other held hHeld
      exact ⟨i, _, hGrows.found _ _ hFind, block?_addNamed_of_eq_some hParent hBlock,
        m.pictured_addNamed hParent hName hHeld hPictured⟩

/-- When the content of one block changes, every block keeps its parent. -/
theorem exists_child_update {f : Block → Block}
    (hContent : ∀ b, ∃ content, f b = { b with content }) (i : Nat) {j k : Nat} {c : Block}
    (hBlock : o.block? k = some c) (hUp : c.parent = some j) :
    ∃ c', (o.update i f).block? k = some c' ∧ c'.parent = some j := by
  by_cases hk : k = i
  · subst hk
    obtain ⟨content, hf⟩ := hContent c
    refine ⟨f c, by rw [Outline.block?_update_self, hBlock]; rfl, ?_⟩
    rw [hf]
    exact hUp
  · exact ⟨c, by rw [Outline.block?_update_of_ne o f hk, hBlock], hUp⟩

/-- A block that another text is joined to pictures the pieces joined in the same way. -/
theorem pictured_merge {i : Nat} {name : String} {held : Holding} {b : Block} {new : List Piece}
    (hPictured : Pictured blocks o i name held b) (hClean : ∀ piece ∈ new, piece.IsClean)
    (hHoles : ∀ child, Piece.hole child ∈ new → ∃ j ∈ b.children, o.find? (.text child) = some j) :
    Pictured (blocks.record b.mode name new) (o.update i fun b => b.merge (blocks.written new)) i
      name { held with pieces := join b.mode held.pieces new } (b.merge (blocks.written new)) where
  called := hPictured.called
  owner := hPictured.owner
  id := hPictured.id
  kind := hPictured.kind
  lifetime := hPictured.lifetime
  transform := hPictured.transform
  content := by
    rw [Ledger.written_record, written_join, ← hPictured.content]
    rfl
  clean := by
    intro piece hMem
    rcases mem_of_mem_join hMem with hMem | hMem
    · exact hPictured.clean piece hMem
    · exact hClean piece hMem
  holes := by
    intro child hHole
    rcases mem_of_mem_join hHole with hHole | hHole
    · exact hPictured.holes child hHole
    · exact hHoles child hHole
  children := by
    intro j hMem
    obtain ⟨hLt, c, hc, hUp⟩ := hPictured.children j hMem
    exact ⟨hLt, exists_child_update (fun _ => ⟨_, rfl⟩) i hc hUp⟩
  distinct := hPictured.distinct

/-- Joining a captured text to a block is completing its declaration in the ledger. -/
theorem merge (m : Mirrors blocks o) {i : Nat} {name : String} {b : Block} {new : List Piece}
    (hFind : o.find? (.text name) = some i) (hBlock : o.block? i = some b)
    (hClean : ∀ piece ∈ new, piece.IsClean)
    (hHoles : ∀ child, Piece.hole child ∈ new → ∃ j ∈ b.children, o.find? (.text child) = some j) :
    Mirrors (blocks.record b.mode name new)
      (o.update i fun b => b.merge (blocks.written new)) := by
  obtain ⟨held, c, hHeld, hBlockC, hPictured⟩ := m.found hFind
  rw [hBlock] at hBlockC
  cases hBlockC
  refine
    { size := ?_
      root := m.root
      named := ?_
      listed := ?_
      pictured := ?_ }
  · rw [Outline.length_update, Ledger.length_record, m.size]
  · intro j c hj
    by_cases hi : j = i
    · subst hi
      rw [Outline.block?_update_self, hBlock] at hj
      cases hj
      exact ⟨name, hPictured.called, hFind⟩
    · rw [Outline.block?_update_of_ne o _ hi] at hj
      exact m.named j c hj
  · intro other j hOther
    have hListed := m.listed other j hOther
    by_cases hSame : other = name
    · subst hSame
      exact Ledger.has_of_get?_eq_some (Ledger.get?_record_self _ _ hHeld)
    · rw [Table.has, Ledger.get?_record_of_ne _ _ hSame]
      exact hListed
  · intro other holding hOther
    by_cases hSame : other = name
    · subst hSame
      rw [Ledger.get?_record_self _ _ hHeld] at hOther
      cases hOther
      exact ⟨i, _, hFind, by rw [Outline.block?_update_self, hBlock]; rfl,
        pictured_merge hPictured hClean hHoles⟩
    · rw [Ledger.get?_record_of_ne _ _ hSame] at hOther
      obtain ⟨j, c, hFindJ, hj, hPicturedC⟩ := m.pictured other holding hOther
      have hNe : j ≠ i := by
        intro hj
        subst hj
        exact hSame (m.name_unique hFindJ hFind)
      refine ⟨j, c, hFindJ, by rw [Outline.block?_update_of_ne o _ hNe, hj], ?_⟩
      refine hPicturedC.mono ⟨c.mode, c.extended, c.parent, c.children, rfl⟩
        (Ledger.written_record _ _ _ _ _) (fun _ _ h => h) (fun _ h => h) ?_ hPicturedC.distinct
      intro k hMem
      obtain ⟨hLt, d, hd, hUp⟩ := hPicturedC.children k hMem
      exact ⟨hLt, exists_child_update (fun _ => ⟨_, rfl⟩) i hd hUp⟩

end Mirrors

end PageBlocks.Inheritance
