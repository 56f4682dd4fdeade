import PageBlocks.Page.Draft
import PageBlocks.Proofs.Outlines
import PageBlocks.Proofs.Running

/-!
# What steps of drafts do

Each step of a draft makes one of a few changes to it (`Change`), whether the step fails or not:
opening and closing blocks and writing are taken apart here and nowhere else, and what steps keep is
read off the changes.

The outline is changed in two ways only: what a block holds is replaced, and a block is declared
under a name that is free. What neither of the two can end is lasting (`Lasting`), and every step
keeps it. One such property is that the registry leads from each name to a block of that name
(`Outline.IsLabelled`).
-/

set_option autoImplicit false

namespace PageBlocks

open PageBlocks.Running

namespace Draft

/-! ## Changes -/

/-- A draft and what a step can make of it, if the step declares no other blocks than fitting ones
and writes no other values than admitted ones, apart from tokens. -/
inductive Change (fits : Block → Prop) (admits : Value → Prop) (d : Draft) : Draft → Prop
  | stay : Change fits admits d d
  | mark (i : Nat) : Change fits admits d
      { d with outline := d.outline.update i fun b => { b with extended := true } }
  | reopen {name : Value} {i : Nat} (hFind : d.outline.find? name = some i) (mode : ApplyMode) :
    Change fits admits d { d with
      outline := (d.outline.update i fun b => { b with extended := true }).update i
        fun b => { b with mode }
      stack := i :: d.stack
      captures := Capture.empty :: d.captures }
  | declare {b : Block} (hFits : fits b) (hFree : d.outline.find? b.name = none)
    (mode : ApplyMode) :
    Change fits admits d { d with
      outline := ((d.outline.addChild d.current b).2.register b.name d.outline.blocks.length).update
        d.outline.blocks.length fun b => { b with mode }
      stack := d.outline.blocks.length :: d.stack
      captures := Capture.empty :: d.captures }
  | write {v : Value} {capture : Capture} {rest : List Capture} (hAdmits : admits v)
    (hCaptures : d.captures = capture :: rest) :
    Change fits admits d { d with captures := capture.add v :: rest }
  /-- Closing a block that nothing was captured for. -/
  | drop {i j : Nat} {below : List Nat} (hStack : d.stack = i :: j :: below)
    (hCaptures : d.captures = []) : Change fits admits d { d with stack := j :: below }
  /-- Closing a block whose capture cannot be read. -/
  | pop {i j : Nat} {below : List Nat} {capture : Capture} {rest : List Capture}
    (hStack : d.stack = i :: j :: below) (hCaptures : d.captures = capture :: rest) :
    Change fits admits d { d with stack := j :: below, captures := rest }
  /-- Closing a block that leaves no token. -/
  | merge {i j : Nat} {below : List Nat} {capture : Capture} {rest : List Capture}
    {captured : String} (hStack : d.stack = i :: j :: below)
    (hCaptures : d.captures = capture :: rest) (hRead : capture.read = .ok captured) :
    Change fits admits d { d with
      outline := d.outline.update i fun b => b.merge captured
      stack := j :: below
      captures := rest }
  /-- Closing a block that was declared once, which leaves its token. -/
  | token {i j : Nat} {below : List Nat} {capture around : Capture} {rest : List Capture}
    {captured : String} {b : Block} (hStack : d.stack = i :: j :: below)
    (hCaptures : d.captures = capture :: around :: rest) (hRead : capture.read = .ok captured)
    (hBlock : d.outline.block? i = some b) (hFirst : b.extended ≠ true) :
    Change fits admits d { d with
      outline := d.outline.update i fun b => b.merge captured
      stack := j :: below
      captures := around.add (.text b.token) :: rest }
  | finish {capture : Capture} {captured : String} (hClosed : ¬ d.stack.length > 1)
    (hLast : d.captures.getLast? = some capture) (hRead : capture.read = .ok captured) :
    Change fits admits d { d with
      outline := d.outline.update Outline.root fun b => b.merge captured }

section Changes

variable {fits : Block → Prop} {admits : Value → Prop} {d : Draft}

theorem ends_reopen {name : Value} {i : Nat} (hFind : d.outline.find? name = some i)
    (mode : ApplyMode) :
    Ends (do
      markExtended i
      push i mode
      return i : DraftM Nat) d (fun _ => Change fits admits d) (Change fits admits d) :=
  ends_modify_bind (ends_modify_bind (ends_pure (.reopen hFind mode)))

/-- The page that declared the block around a new one owns the new one too. -/
theorem change_openBlock {name : Value} (mode : ApplyMode)
    (hFits : fits (Block.plain (((d.outline.block? d.current).map Block.owner).getD "") name)) :
    Change fits admits d ((openBlock name mode).run d).2 := by
  refine ends_iff_snd.mp (ends_lift_bind (fun _ _ => ends_get_bind ?_) .stay)
  split
  · rename_i i hFind
    exact ends_reopen hFind mode
  · rename_i hFree
    exact ends_set_bind (ends_modify_bind (ends_pure (.declare hFits hFree mode)))

theorem change_addBlock {b : Block} (mode : ApplyMode) (hFits : fits b) :
    Change fits admits d ((addBlock b mode).run d).2 := by
  refine ends_iff_snd.mp (ends_lift_bind (fun _ _ => ends_get_bind ?_) .stay)
  split
  · rename_i i hFind
    split
    · split
      · exact ends_throw .stay
      · exact ends_reopen hFind mode
    · exact ends_reopen hFind mode
  · rename_i hFree
    exact ends_set_bind (ends_modify_bind (ends_pure (.declare hFits hFree mode)))

theorem change_write {v : Value} (hAdmits : admits v) :
    Change fits admits d ((write v).run d).2 := by
  refine ends_iff_snd.mp (ends_get_bind ?_)
  split
  · exact ends_throw .stay
  · rename_i hCaptures
    exact ends_set (.write hAdmits hCaptures)

/-- Closing a block can fail before and after its text has joined the block. -/
theorem change_close : Change fits admits d (close.run d).2 := by
  refine ends_iff_snd.mp (ends_get_bind ?_)
  split
  · rename_i i j below hStack
    refine ends_set_bind ?_
    split
    · rename_i hCaptures
      exact ends_throw (.drop hStack hCaptures)
    · rename_i capture rest hCaptures
      refine ends_set_bind (ends_lift_bind (fun captured hRead => ends_modify_bind ?_)
        (.pop hStack hCaptures))
      split
      · rename_i b hBlock
        split
        · exact ends_pure (.merge hStack hCaptures hRead)
        · rename_i hFirst
          refine ends_get_bind ?_
          split
          · exact ends_throw (.merge hStack hCaptures hRead)
          · rename_i around rest' hRest
            obtain rfl : rest = around :: rest' := hRest
            exact ends_set (.token hStack hCaptures hRead hBlock hFirst)
      · exact ends_pure (.merge hStack hCaptures hRead)
  · exact ends_throw .stay

theorem change_finish : Change fits admits d (Draft.finish.run d).2 := by
  refine ends_iff_snd.mp (ends_get_bind ?_)
  by_cases hOpen : d.stack.length > 1
  · simp only [hOpen, if_true]
    exact ends_throw .stay
  · simp only [hOpen, if_false]
    cases hLast : d.captures.getLast? with
    | none => exact ends_throw .stay
    | some capture =>
      refine ends_lift_bind (fun captured hRead => ?_) .stay
      split
      · split
        · exact ends_pure .stay
        · exact ends_set (.finish hOpen hLast hRead)
      · exact ends_pure .stay

end Changes

/-! ## Lasting properties -/

/-- A step keeps a property of outlines, also when it fails. -/
def Keeps (P : Outline → Prop) {α : Type} (x : DraftM α) : Prop :=
  ∀ d, P d.outline → Ends x d (fun _ d' => P d'.outline) fun d' => P d'.outline

theorem Keeps.run {P : Outline → Prop} {α : Type} {x : DraftM α} (h : Keeps P x) {d : Draft}
    (hOutline : P d.outline) : P (x.run d).2.outline :=
  ends_iff_snd.mp (h d hOutline)

/-- A property of outlines that stays as long as only certain blocks are declared. -/
structure Lasting (P : Outline → Prop) (fits : Block → Prop) : Prop where
  plain : ∀ (owner : String) (name : Value), fits (Block.plain owner name)
  update : ∀ {o : Outline} {i : Nat} {f : Block → Block}, P o →
    (∀ b, (f b).name = b.name ∧ (f b).kind = b.kind) → P (o.update i f)
  declare : ∀ {o : Outline} {parent : Nat} {b : Block}, P o → fits b → o.find? b.name = none →
    P ((o.addChild parent b).2.register b.name o.blocks.length)

namespace Lasting

variable {P : Outline → Prop} {fits : Block → Prop}

theorem change (h : Lasting P fits) {admits : Value → Prop} {d d' : Draft}
    (hOutline : P d.outline) (hChange : Change fits admits d d') : P d'.outline := by
  cases hChange with
  | stay => exact hOutline
  | mark i => exact h.update hOutline fun _ => ⟨rfl, rfl⟩
  | reopen _ mode => exact h.update (h.update hOutline fun _ => ⟨rfl, rfl⟩) fun _ => ⟨rfl, rfl⟩
  | declare hFits hFree mode =>
    exact h.update (h.declare hOutline hFits hFree) fun _ => ⟨rfl, rfl⟩
  | write _ _ => exact hOutline
  | drop _ _ => exact hOutline
  | pop _ _ => exact hOutline
  | merge _ _ _ => exact h.update hOutline fun _ => ⟨rfl, rfl⟩
  | token _ _ _ _ _ => exact h.update hOutline fun _ => ⟨rfl, rfl⟩
  | finish _ _ _ => exact h.update hOutline fun _ => ⟨rfl, rfl⟩

/-- A step that makes such a change keeps what is lasting. -/
theorem keeps (h : Lasting P fits) {α : Type} {x : DraftM α}
    (hChange : ∀ d, Change fits (fun _ => True) d (x.run d).2) : Keeps P x :=
  fun d hOutline => ends_iff_snd.mpr (h.change hOutline (hChange d))

theorem markExtended (h : Lasting P fits) (i : Nat) : Keeps P (Draft.markExtended i) :=
  h.keeps fun _ => .mark i

theorem openBlock (h : Lasting P fits) (name : Value) (mode : ApplyMode) :
    Keeps P (Draft.openBlock name mode) :=
  h.keeps fun _ => change_openBlock mode (h.plain _ name)

theorem addBlock (h : Lasting P fits) {b : Block} (hFits : fits b) (mode : ApplyMode) :
    Keeps P (Draft.addBlock b mode) :=
  h.keeps fun _ => change_addBlock mode hFits

theorem write (h : Lasting P fits) (v : Value) : Keeps P (Draft.write v) :=
  h.keeps fun _ => change_write trivial

theorem close (h : Lasting P fits) : Keeps P Draft.close :=
  h.keeps fun _ => change_close

theorem resetCaptures (_ : Lasting P fits) : Keeps P Draft.resetCaptures :=
  fun _ hOutline => ends_modify hOutline

theorem finish (h : Lasting P fits) : Keeps P Draft.finish :=
  h.keeps fun _ => change_finish

end Lasting

end Draft

/-! ## Labels -/

namespace Outline

/-- The registry leads from each name to a block of that name. -/
def IsLabelled (o : Outline) : Prop :=
  ∀ entry ∈ o.registry, ∃ b, o.block? entry.2 = some b ∧ b.name = entry.1

variable {o : Outline}

theorem isLabelled_start (owner : String) : (start owner).IsLabelled := by
  intro entry hMem
  obtain rfl := List.mem_singleton.mp hMem
  exact ⟨_, rfl, rfl⟩

/-- A name that is found belongs to a block whose name is the same. -/
theorem IsLabelled.exists_block (h : o.IsLabelled) {name : Value} {i : Nat}
    (hFind : o.find? name = some i) : ∃ b, o.block? i = some b ∧ (b.name == name) = true := by
  obtain ⟨key, hMem, hSame⟩ := Table.exists_beq_of_get?_eq_some hFind
  obtain ⟨b, hBlock, hName⟩ := h _ hMem
  exact ⟨b, hBlock, hName ▸ hSame⟩

theorem IsLabelled.update (h : o.IsLabelled) {i : Nat} {f : Block → Block}
    (hName : ∀ b, (f b).name = b.name) : (o.update i f).IsLabelled := by
  intro entry hMem
  obtain ⟨b, hBlock, hEntry⟩ := h entry hMem
  rw [block?_update, hBlock]
  split
  · exact ⟨f b, rfl, (hName b).trans hEntry⟩
  · exact ⟨b, rfl, hEntry⟩

/-- The block that was added is there under its number, whatever number its parent has. -/
theorem exists_block?_addChild (parent : Nat) (b : Block) :
    ∃ child, (o.addChild parent b).2.block? o.blocks.length = some child
      ∧ child.name = b.name := by
  have hAdd : (o.add b).2.block? o.blocks.length = some b := List.getElem?_concat_length
  have hAttach : (o.addChild parent b).2 = (o.add b).2.attach parent o.blocks.length := rfl
  rw [hAttach, Outline.attach, block?_update, block?_update, if_pos rfl, hAdd]
  split
  · exact ⟨_, rfl, rfl⟩
  · exact ⟨_, rfl, rfl⟩

/-- The blocks that were there before are there under their numbers. -/
theorem exists_block?_addChild_of_eq_some (parent : Nat) (b : Block) {i : Nat} {old : Block}
    (h : o.block? i = some old) :
    ∃ new, (o.addChild parent b).2.block? i = some new ∧ new.name = old.name := by
  have hLt := lt_of_block?_eq_some h
  have hAdd : (o.add b).2.block? i = some old := by
    show (o.blocks ++ [b])[i]? = some old
    rw [List.getElem?_append_left hLt]
    exact h
  have hAttach : (o.addChild parent b).2 = (o.add b).2.attach parent o.blocks.length := rfl
  rw [hAttach, Outline.attach, block?_update, block?_update, if_neg (Nat.ne_of_gt hLt), hAdd]
  split
  · exact ⟨_, rfl, rfl⟩
  · exact ⟨old, rfl, rfl⟩

/-- Every step of a draft keeps the labels. -/
theorem lasting_isLabelled : Draft.Lasting IsLabelled fun _ => True where
  plain _ _ := trivial
  update h hSame := h.update fun b => (hSame b).1
  declare {o parent b} h _ hFree := by
    intro entry hMem
    have hRegistry : ((o.addChild parent b).2.register b.name o.blocks.length).registry
        = o.registry ++ [(b.name, o.blocks.length)] := Table.insert_eq_append _ hFree
    rw [hRegistry, List.mem_append, List.mem_singleton] at hMem
    rcases hMem with hOld | rfl
    · obtain ⟨old, hBlock, hEntry⟩ := h entry hOld
      obtain ⟨new, hNew, hName⟩ := exists_block?_addChild_of_eq_some parent b hBlock
      exact ⟨new, hNew, hName.trans hEntry⟩
    · obtain ⟨child, hChild, hName⟩ := exists_block?_addChild parent b
      exact ⟨child, hChild, hName⟩

end Outline

end PageBlocks
