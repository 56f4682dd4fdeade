import PageBlocks.Proofs.Coherence.Drafts
import PageBlocks.Proofs.Lasting

/-!
# The names and the identities of blocks

A block is registered under its name only where no name equals it, so that no two blocks of an
outline have names that equal each other; and its identity is the digest of the identity of a page
and of its printed name (`Named`). Every step that the body of a page takes keeps this up, a step
that fails included (`onward_of_drawn`). A new plain block has the owner of the innermost open
block, so that the open blocks have to be there (`Seated`).

Whether two names are equal and whether they print alike are different matters: the number one and
the text `1` are unequal names that print alike, and a number that is none does not even equal
itself.
-/

set_option autoImplicit false

namespace PageBlocks

/-- What is looked up in vain equals no key. -/
theorem Table.beq_eq_false_of_get?_eq_none {κ α : Type} [BEq κ] {t : Table κ α} {key : κ}
    (h : t.get? key = none) : ∀ binding ∈ t, (binding.1 == key) = false := by
  induction t with
  | nil => exact nofun
  | cons binding rest ih =>
    rw [Table.get?_cons] at h
    split at h
    · cases h
    · rename_i hOther
      exact List.forall_mem_cons.mpr ⟨Bool.eq_false_iff.mpr hOther, ih h⟩

namespace Naming

open PageBlocks.Coherence (Keeps)
open PageBlocks.Lasting PageBlocks.Running

/-- A block with the identity that its owner and its name give it. -/
structure Signed (b : Block) : Prop where
  owner : Token.isId b.owner.toList = true
  id : b.id = Identity.block b.owner b.name

/-- An outline that has a root, whose blocks have the identities that their owners and names give
them, and whose registry has all their names, no two of which are equal. -/
structure Named (o : Outline) : Prop where
  root : Outline.root < o.blocks.length
  signed : ∀ b ∈ o.blocks, Signed b
  listed : ∀ name ∈ o.blocks.map Block.name, ∃ i, (name, i) ∈ o.registry
  bounded : ∀ entry ∈ o.registry, entry.2 < o.blocks.length
  unequal : (o.blocks.map Block.name).Pairwise fun a b => (a == b) = false

section Outlines

variable {o : Outline} {b : Block} {i : Nat}

theorem signed_plain {owner : String} (h : Token.isId owner.toList = true) (name : Value) :
    Signed (Block.plain owner name) := ⟨h, rfl⟩

/-- The page that declares a block owns it. -/
theorem signed_declare {owner : String} {name lifetime : Value} {kind : BlockKind}
    {transform : Option Transform} (h : Token.isId owner.toList = true)
    (hBlock : Block.declare owner name kind lifetime transform = .ok b) : Signed b := by
  unfold Block.declare at hBlock
  split at hBlock
  · cases hBlock
  · cases hBlock
    exact ⟨h, rfl⟩

theorem named_start {owner : String} (h : Token.isId owner.toList = true) :
    Named (Outline.start owner) := by
  constructor
  case root => exact Nat.one_pos
  case signed =>
    intro b hMem
    obtain rfl := List.mem_singleton.mp hMem
    exact signed_plain h _
  case listed =>
    intro name hMem
    obtain rfl := List.mem_singleton.mp hMem
    exact ⟨Outline.root, List.mem_cons_self⟩
  case bounded =>
    intro entry hMem
    obtain rfl := List.mem_singleton.mp hMem
    exact Nat.one_pos
  case unequal => exact List.pairwise_singleton _ _

theorem names_update (i : Nat) {f : Block → Block} (hName : ∀ b, (f b).name = b.name) :
    (o.update i f).blocks.map Block.name = o.blocks.map Block.name := by
  apply List.ext_getElem?
  intro j
  have hBlock : (o.update i f).blocks[j]? = if i = j then o.blocks[j]?.map f else o.blocks[j]? :=
    Outline.block?_update o i j f
  rw [List.getElem?_map, List.getElem?_map, hBlock]
  split
  · rw [Option.map_map]
    exact congrArg (Option.map · _) (funext hName)
  · rfl

theorem names_addChild (parent : Nat) (b : Block) :
    (o.addChild parent b).2.blocks.map Block.name = o.blocks.map Block.name ++ [b.name] := by
  calc
    (o.addChild parent b).2.blocks.map Block.name
        = ((o.add b).2.update o.blocks.length fun child =>
            { child with parent := some parent }).blocks.map Block.name :=
      names_update parent fun _ => rfl
    _ = (o.add b).2.blocks.map Block.name := names_update o.blocks.length fun _ => rfl
    _ = o.blocks.map Block.name ++ [b.name] := List.map_append

/-- What a block holds may change. -/
theorem Named.update (h : Named o) (i : Nat) {f : Block → Block}
    (hKeeps : ∀ b, Keeps b (f b)) : Named (o.update i f) := by
  constructor
  case root =>
    rw [Outline.length_update]
    exact h.root
  case signed =>
    refine Outline.forall_mem_update h.signed fun b hOld => ⟨?_, ?_⟩
    · rw [(hKeeps b).owner]
      exact hOld.owner
    · rw [(hKeeps b).id, (hKeeps b).owner, (hKeeps b).name]
      exact hOld.id
  case listed =>
    rw [names_update i fun b => (hKeeps b).name]
    exact h.listed
  case bounded =>
    rw [Outline.length_update]
    exact h.bounded
  case unequal =>
    rw [names_update i fun b => (hKeeps b).name]
    exact h.unequal

/-- A block may be declared under a name that equals no other one. -/
theorem Named.declare (h : Named o) (hSigned : Signed b) (hFree : o.find? b.name = none)
    (parent : Nat) :
    Named ((o.addChild parent b).2.register b.name o.blocks.length) := by
  have hNames := names_addChild (o := o) parent b
  have hLength := Outline.length_addChild (o := o) parent b
  have hRegistry : ((o.addChild parent b).2.register b.name o.blocks.length).registry
      = o.registry ++ [(b.name, o.blocks.length)] := Table.insert_eq_append _ hFree
  constructor
  case root => exact hLength ▸ Nat.lt_succ_of_lt h.root
  case signed =>
    exact Outline.forall_mem_addChild h.signed hSigned (fun _ _ hOld => ⟨hOld.owner, hOld.id⟩)
      fun _ _ hOld => ⟨hOld.owner, hOld.id⟩
  case listed =>
    intro name hMem
    rw [hRegistry]
    rcases List.mem_append.mp (hNames ▸ hMem) with hOld | hNew
    · obtain ⟨i, hEntry⟩ := h.listed name hOld
      exact ⟨i, List.mem_append_left _ hEntry⟩
    · obtain rfl := List.mem_singleton.mp hNew
      exact ⟨_, List.mem_append_right _ List.mem_cons_self⟩
  case bounded =>
    intro entry hMem
    refine hLength ▸ Nat.lt_succ_of_le ?_
    rcases List.mem_append.mp (hRegistry ▸ hMem) with hOld | hNew
    · exact Nat.le_of_lt (h.bounded entry hOld)
    · exact (List.mem_singleton.mp hNew) ▸ Nat.le_refl _
  case unequal =>
    show ((o.addChild parent b).2.blocks.map Block.name).Pairwise _
    rw [hNames, List.pairwise_append]
    -- a name that equals the new one would have been found in the registry
    refine ⟨h.unequal, List.pairwise_singleton _ _, fun name hOld new hNew => ?_⟩
    obtain rfl := List.mem_singleton.mp hNew
    obtain ⟨i, hEntry⟩ := h.listed name hOld
    exact Table.beq_eq_false_of_get?_eq_none hFree _ hEntry

theorem Named.lt_of_find? (h : Named o) {name : Value} (hFind : o.find? name = some i) :
    i < o.blocks.length := by
  obtain ⟨key, hMem⟩ := Table.exists_mem_of_get?_eq_some hFind
  exact h.bounded _ hMem

/-- Every owner of a block is the identity of a page. -/
theorem Named.isId_owner (h : Named o) (hLt : i < o.blocks.length) :
    Token.isId (((o.block? i).map Block.owner).getD "").toList = true := by
  have hBlock : o.block? i = some o.blocks[i] := List.getElem?_eq_getElem hLt
  rw [hBlock]
  exact (h.signed _ (List.getElem_mem hLt)).owner

end Outlines

/-! ## Drafts -/

/-- A draft whose outline is named and whose open blocks are there. -/
structure Seated (d : Draft) : Prop where
  outline : Named d.outline
  stack : ∀ i ∈ d.stack, i < d.outline.blocks.length

/-- A draft after a step: it is seated still, and all blocks are there still. -/
structure Onward (d d' : Draft) : Prop where
  seated : Seated d'
  bound : d.outline.blocks.length ≤ d'.outline.blocks.length

section Drafts

variable {d d' d'' : Draft} {i : Nat}

theorem Onward.refl (h : Seated d) : Onward d d := ⟨h, Nat.le_refl _⟩

theorem Onward.trans (h : Onward d d') (h' : Onward d' d'') : Onward d d'' :=
  ⟨h'.seated, Nat.le_trans h.bound h'.bound⟩

theorem Seated.current_lt (h : Seated d) : d.current < d.outline.blocks.length := by
  unfold Draft.current
  cases hStack : d.stack with
  | nil => exact h.outline.root
  | cons i rest => exact h.stack i (hStack ▸ List.mem_cons_self)

/-- What a block holds was changed, or blocks were closed. -/
theorem Seated.refill (h : Seated d) (i : Nat) {f : Block → Block}
    (hKeeps : ∀ b, Keeps b (f b)) {stack : List Nat} (hStack : ∀ j ∈ stack, j ∈ d.stack)
    (captures : List Capture) :
    Onward d { d with outline := d.outline.update i f, stack, captures } := by
  have hLength := Outline.length_update d.outline i f
  refine ⟨⟨h.outline.update i hKeeps, fun j hMem => ?_⟩, Nat.le_of_eq hLength.symm⟩
  exact hLength ▸ h.stack j (hStack j hMem)

theorem Seated.recapture (h : Seated d) {stack : List Nat} (hStack : ∀ j ∈ stack, j ∈ d.stack)
    (captures : List Capture) : Onward d { d with stack, captures } :=
  ⟨⟨h.outline, fun j hMem => h.stack j (hStack j hMem)⟩, Nat.le_refl _⟩

/-! ### Steps -/

theorem keeps_mode (mode : ApplyMode) (b : Block) : Keeps b { b with mode } :=
  ⟨rfl, rfl, rfl, rfl, rfl, rfl, rfl, List.prefix_rfl⟩

theorem keeps_extended (b : Block) : Keeps b { b with extended := true } :=
  ⟨rfl, rfl, rfl, rfl, rfl, rfl, rfl, List.prefix_rfl⟩

theorem keeps_merge (captured : String) (b : Block) : Keeps b (b.merge captured) :=
  ⟨rfl, rfl, rfl, rfl, rfl, rfl, rfl, List.prefix_rfl⟩

/-- A block of the outline is opened. -/
theorem Seated.push (h : Seated d) (hLt : i < d.outline.blocks.length) (mode : ApplyMode) :
    Onward d { d with
      outline := d.outline.update i fun b => { b with mode }
      stack := i :: d.stack
      captures := Capture.empty :: d.captures } := by
  have hLength := Outline.length_update d.outline i fun b => { b with mode }
  refine ⟨⟨h.outline.update i (keeps_mode mode), fun j hMem => ?_⟩, Nat.le_of_eq hLength.symm⟩
  dsimp only
  rw [hLength]
  rcases List.mem_cons.mp hMem with rfl | hOld
  · exact hLt
  · exact h.stack j hOld

/-- A block is declared under a free name. -/
theorem Seated.declare (h : Seated d) {b : Block} (hSigned : Signed b)
    (hFree : d.outline.find? b.name = none) :
    Onward d { d with
      outline := (d.outline.addChild d.current b).2.register b.name d.outline.blocks.length } := by
  have hLonger : d.outline.blocks.length < ((d.outline.addChild d.current b).2.register b.name
      d.outline.blocks.length).blocks.length :=
    Outline.length_addChild (o := d.outline) d.current b ▸ Nat.lt_succ_self _
  refine ⟨⟨h.outline.declare hSigned hFree _, fun j hMem => ?_⟩, Nat.le_of_lt hLonger⟩
  exact Nat.lt_trans (h.stack j hMem) hLonger

/-- Whatever a step makes of a draft, the draft stays seated. -/
theorem onward_of_change {admits : Value → Prop} (h : Seated d)
    (hChange : Draft.Change Signed admits d d') : Onward d d' := by
  cases hChange with
  | stay => exact Onward.refl h
  | mark i => exact h.refill i keeps_extended (fun _ => id) d.captures
  | @reopen _ i hFind mode =>
    have hLt := h.outline.lt_of_find? hFind
    have hMarked := h.refill i keeps_extended (fun _ => id) d.captures
    exact hMarked.trans (hMarked.seated.push (Nat.lt_of_lt_of_le hLt hMarked.bound) mode)
  | declare hSigned hFree mode =>
    have hDeclared := h.declare hSigned hFree
    refine hDeclared.trans (hDeclared.seated.push ?_ mode)
    -- the number of the new block is the length that the outline had
    exact Outline.length_addChild (o := d.outline) d.current _ ▸ Nat.lt_succ_self _
  | write _ _ => exact h.recapture (fun _ => id) _
  | drop hStack _ => exact h.recapture (fun _ hMem => hStack ▸ List.mem_cons_of_mem _ hMem) _
  | pop hStack _ => exact h.recapture (fun _ hMem => hStack ▸ List.mem_cons_of_mem _ hMem) _
  | merge hStack _ _ =>
    exact h.refill _ (keeps_merge _) (fun _ hMem => hStack ▸ List.mem_cons_of_mem _ hMem) _
  | token hStack _ _ _ _ =>
    exact h.refill _ (keeps_merge _) (fun _ hMem => hStack ▸ List.mem_cons_of_mem _ hMem) _
  | finish _ _ _ => exact h.refill _ (keeps_merge _) (fun _ => id) d.captures

/-- Whatever step the body of a page takes, its draft stays seated. -/
theorem onward_of_drawn {owner : String} (hOwner : Token.isId owner.toList = true)
    (h : Seated d) (hDrawn : Drawn owner d d') : Onward d d' := by
  have hStep : Draft.Change Signed (fun _ => True) d d' → Onward d d' := onward_of_change h
  cases hDrawn with
  | openBlock name mode =>
    have hAround := h.outline.isId_owner h.current_lt
    exact hStep (Draft.change_openBlock mode (signed_plain hAround name))
  | addBlock hBlock mode => exact hStep (Draft.change_addBlock mode (signed_declare hOwner hBlock))
  | write v => exact hStep (Draft.change_write trivial)
  | close => exact hStep Draft.change_close
  | finish => exact hStep Draft.change_finish
  | markRoot => exact hStep (.mark _)
  | resetCaptures => exact h.recapture (fun _ => id) _

end Drafts

end Naming

end PageBlocks
