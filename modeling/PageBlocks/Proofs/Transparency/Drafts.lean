import PageBlocks.Proofs.Transparency.Evaluation
import PageBlocks.Proofs.Upkeep.Drafts

/-!
# Drafts of pages with other numbers

The names of blocks are values, and may know pages. A draft whose names are moved takes every step
along with the draft (`inStep_openBlock`, `inStep_close`, `inStep_finish`), and an outline without
cacheable blocks renders to the same text (`render_shift`).
-/

set_option autoImplicit false

namespace PageBlocks

/-- A block with the numbers of the pages in its name moved up. -/
def Block.shift (k : Nat) (b : Block) : Block := { b with name := b.name.shift k }

/-- An outline with the numbers of the pages in the names of its blocks moved up. -/
def Outline.shift (k : Nat) (o : Outline) : Outline :=
  ⟨o.blocks.map (Block.shift k), o.registry.map fun entry => (entry.1.shift k, entry.2)⟩

/-- A draft with the numbers of the pages in the names of its blocks moved up. -/
def Draft.shift (k : Nat) (d : Draft) : Draft := { d with outline := d.outline.shift k }

namespace Transparency

open PageBlocks.Cache PageBlocks.Running PageBlocks.Upkeep

section Outlines

variable (k : Nat)

theorem block?_shift (o : Outline) (i : Nat) :
    (o.shift k).block? i = (o.block? i).map (Block.shift k) :=
  List.getElem?_map

theorem find?_shift (o : Outline) (name : Value) :
    (o.shift k).find? (name.shift k) = o.find? name := by
  have hFound := get?_shift k (id : Nat → Nat) o.registry name
  simp only [id_eq, Option.map_id_fun] at hFound
  exact hFound

theorem register_shift (o : Outline) (name : Value) (i : Nat) :
    (o.shift k).register (name.shift k) i = (o.register name i).shift k := by
  have hInserted := insert_shift k (id : Nat → Nat) o.registry name i
  simp only [id_eq] at hInserted
  exact congrArg (Outline.mk _) hInserted

theorem modify_shift (f f' : Block → Block) (h : ∀ b, f' (b.shift k) = (f b).shift k)
    (blocks : List Block) (i : Nat) :
    (blocks.map (Block.shift k)).modify i f' = (blocks.modify i f).map (Block.shift k) := by
  refine List.ext_getElem? fun j => ?_
  rw [List.getElem?_modify, List.getElem?_map, List.getElem?_map, List.getElem?_modify]
  cases blocks[j]? with
  | none => rfl
  | some b => by_cases hSame : i = j <;> simp [hSame, h]

theorem update_shift (f f' : Block → Block) (h : ∀ b, f' (b.shift k) = (f b).shift k)
    (o : Outline) (i : Nat) : (o.shift k).update i f' = (o.update i f).shift k :=
  congrArg (Outline.mk · _) (modify_shift k f f' h o.blocks i)

theorem update_merge_shift (captured : String) (o : Outline) (i : Nat) :
    (o.shift k).update i (fun b => b.merge captured)
      = (o.update i fun b => b.merge captured).shift k :=
  update_shift k (fun b => b.merge captured) (fun b => b.merge captured) (fun _ => rfl) o i

theorem addChild_shift (o : Outline) (parent : Nat) (b : Block) :
    (o.shift k).addChild parent (b.shift k)
      = ((o.addChild parent b).1, (o.addChild parent b).2.shift k) := by
  have hAdd : (o.shift k).add (b.shift k) = (o.blocks.length, (o.add b).2.shift k) := by
    simp [Outline.add, Outline.shift]
  unfold Outline.addChild
  rw [hAdd]
  refine Prod.ext rfl ?_
  have hInner := update_shift k (fun b => { b with parent := some parent })
    (fun b => { b with parent := some parent }) (fun _ => rfl) (o.add b).2 o.blocks.length
  have hOuter := update_shift k (fun b => { b with children := b.children ++ [o.blocks.length] })
    (fun b => { b with children := b.children ++ [o.blocks.length] }) (fun _ => rfl)
  exact (congrArg (fun o' => Outline.update o' parent _) hInner).trans (hOuter _ _)

theorem plain_shift (owner : String) (name : Value) :
    Block.plain owner (name.shift k) = (Block.plain owner name).shift k := by
  unfold Block.plain Identity.block Identity.blockText
  rw [print_shift]
  rfl

theorem createChild_shift (o : Outline) (parent : Nat) (name : Value) :
    (o.shift k).createChild parent (name.shift k)
      = ((o.createChild parent name).1, (o.createChild parent name).2.shift k) := by
  have hOwner : (((o.shift k).block? parent).map Block.owner).getD ""
      = ((o.block? parent).map Block.owner).getD "" := by
    rw [block?_shift, Option.map_map]
    rfl
  unfold Outline.createChild
  rw [hOwner]
  simp only [plain_shift]
  exact addChild_shift k o parent _

/-! ## Rendering -/

theorem compose_shift {render render' : Nat → VaultM String} (hRender : render' = render)
    (o : Outline) (b : Block) :
    Outline.compose render' (o.shift k) (b.shift k) = Outline.compose render o b := by
  subst hRender
  have hChild : Outline.childOutput render' (o.shift k) = Outline.childOutput render' o := by
    funext i
    unfold Outline.childOutput
    rw [block?_shift]
    cases o.block? i <;> rfl
  rw [Outline.compose_eq, Outline.compose_eq, hChild]
  rfl

theorem renderFrom_shift {o : Outline} (h : Uncached o) (memo memo' : Option Memo) (depth i : Nat) :
    Outline.renderFrom depth memo' (o.shift k) i = Outline.renderFrom depth memo o i := by
  induction depth generalizing i with
  | zero => rfl
  | succ depth ih =>
    unfold Outline.renderFrom
    rw [block?_shift]
    cases hBlock : o.block? i with
    | none => rfl
    | some b =>
      have hKind := h b (Outline.mem_of_block?_eq_some hBlock)
      have hSame := compose_shift k (funext ih) o b
      have hShifted : (b.shift k).kind = b.kind := rfl
      simp only [Option.map_some, hShifted]
      cases hCase : b.kind with
      | cacheable => exact absurd hCase hKind
      | plain => exact hSame
      | markup => exact hSame

/-- Without cacheable blocks the output of a block does not depend on the names of blocks, nor on
the cache that they would use. -/
theorem render_shift {o : Outline} (h : Uncached o) (memo memo' : Option Memo) (i : Nat) :
    (o.shift k).render memo' i = o.render memo i := by
  have hLength : (o.shift k).blocks.length = o.blocks.length := List.length_map _
  unfold Outline.render
  rw [hLength]
  exact renderFrom_shift k h memo memo' _ i

end Outlines

/-! ## Steps -/

/-- The moved draft. -/
def NearDraft (k : Nat) (d d' : Draft) : Prop := d' = d.shift k

section Steps

variable {k : Nat}

theorem inStep_push (i : Nat) (mode : ApplyMode) :
    InStep (NearDraft k) id (Draft.push i mode) (Draft.push i mode) := by
  refine inStep_modify fun d d' hNear => ?_
  subst hNear
  have hUpdate := update_shift k (fun b => { b with mode })
    (fun b => { b with mode }) (fun _ => rfl) d.outline i
  exact congrArg (fun o => (⟨d.path, o, i :: d.stack, Capture.empty :: d.captures⟩ : Draft)) hUpdate

theorem inStep_markExtended (i : Nat) :
    InStep (NearDraft k) id (Draft.markExtended i) (Draft.markExtended i) := by
  refine inStep_modify fun d d' hNear => ?_
  subst hNear
  have hUpdate := update_shift k (fun b => { b with extended := true })
    (fun b => { b with extended := true }) (fun _ => rfl) d.outline i
  exact congrArg (fun o => (⟨d.path, o, d.stack, d.captures⟩ : Draft)) hUpdate

theorem checkName_shift (name : Value) :
    Draft.checkName (name.shift k) = Draft.checkName name := by
  have hRoot : Value.same (name.shift k) Outline.rootName = Value.same name Outline.rootName :=
    same_shift k name Outline.rootName
  unfold Draft.checkName
  rw [hRoot, isKey_shift]

/-- A check comes out the same for both. -/
theorem InStep.lift_bind {σ τ α β γ : Type} {near : σ → τ → Prop} {g : β → γ} {x : Except Fault α}
    {f : α → Run σ β} {f' : α → Run τ γ} (h : ∀ a, InStep near g (f a) (f' a)) :
    InStep near g (liftM x >>= f) (liftM x >>= f') := by
  cases x with
  | ok a => exact h a
  | error fault => exact inStep_throw fault fault

theorem inStep_openBlock (name : Value) (mode : ApplyMode) :
    InStep (NearDraft k) id (Draft.openBlock name mode)
      (Draft.openBlock (name.shift k) mode) := by
  unfold Draft.openBlock
  rw [checkName_shift]
  refine InStep.lift_bind fun _ => inStep_get_bind fun d d' hNear => ?_
  subst hNear
  have hFind : (d.shift k).outline.find? (name.shift k) = d.outline.find? name :=
    find?_shift k d.outline name
  rw [hFind]
  cases d.outline.find? name with
  | some i =>
    have hOpens : InStep (NearDraft k) id (do
        Draft.markExtended i
        Draft.push i mode
        return i : DraftM Nat) (do
        Draft.markExtended i
        Draft.push i mode
        return i : DraftM Nat) :=
      (inStep_markExtended i).bind fun _ => (inStep_push i mode).bind fun _ => inStep_pure rfl
    exact hOpens d _ rfl
  | none =>
    have hCreated : (d.shift k).outline.createChild (d.shift k).current (name.shift k)
        = ((d.outline.createChild d.current name).1,
          (d.outline.createChild d.current name).2.shift k) :=
      createChild_shift k d.outline d.current name
    have hRegistered := register_shift k (d.outline.createChild d.current name).2 name
      (d.outline.createChild d.current name).1
    dsimp only
    rw [hCreated]
    dsimp only
    rw [hRegistered]
    have hOpens : InStep (NearDraft k) id (do
        Draft.push (d.outline.createChild d.current name).1 mode
        return (d.outline.createChild d.current name).1 : DraftM Nat) (do
        Draft.push (d.outline.createChild d.current name).1 mode
        return (d.outline.createChild d.current name).1 : DraftM Nat) :=
      (inStep_push _ mode).bind fun _ => inStep_pure rfl
    exact ends_set_bind (hOpens _ _ rfl)

theorem inStep_write (s : String) :
    InStep (NearDraft k) id (Draft.write (.text s)) (Draft.write (.text s)) := by
  unfold Draft.write
  refine inStep_get_bind fun d d' hNear => ?_
  subst hNear
  have hCaptures : (d.shift k).captures = d.captures := rfl
  rw [hCaptures]
  cases d.captures with
  | nil => exact ends_throw ⟨_, _, rfl, rfl⟩
  | cons capture rest => exact ends_set ⟨_, rfl, rfl⟩

theorem inStep_resetCaptures :
    InStep (NearDraft k) id Draft.resetCaptures Draft.resetCaptures := by
  refine inStep_modify fun d d' hNear => ?_
  subst hNear
  rfl

theorem inStep_close : InStep (NearDraft k) id Draft.close Draft.close := by
  unfold Draft.close
  refine inStep_get_bind fun d d' hNear => ?_
  subst hNear
  have hStack : (d.shift k).stack = d.stack := rfl
  have hCaptures : (d.shift k).captures = d.captures := rfl
  rw [hStack, hCaptures]
  match d.stack with
  | [] => exact ends_throw ⟨_, _, rfl, rfl⟩
  | [_] => exact ends_throw ⟨_, _, rfl, rfl⟩
  | i :: next :: below =>
    refine ends_set_bind ?_
    cases d.captures with
    | nil => exact ends_throw ⟨_, _, rfl, rfl⟩
    | cons capture rest =>
      refine ends_set_bind (InStep.lift_bind (fun captured => ?_) _ _ rfl)
      refine InStep.bind (g := id) (inStep_modify fun d d' hNear => ?_) fun _ => ?_
      · subst hNear
        have hUpdate := update_merge_shift k captured d.outline i
        exact congrArg (fun o => (⟨d.path, o, d.stack, d.captures⟩ : Draft)) hUpdate
      · have hBlock : (d.shift k).outline.block? i = (d.outline.block? i).map (Block.shift k) :=
          block?_shift k d.outline i
        rw [hBlock]
        cases d.outline.block? i with
        | none => exact inStep_pure rfl
        | some b =>
          have hExtended : (b.shift k).extended = b.extended := rfl
          simp only [Option.map_some, hExtended]
          split
          · exact inStep_pure rfl
          · exact inStep_write b.token

theorem inStep_finish : InStep (NearDraft k) id Draft.finish Draft.finish := by
  unfold Draft.finish
  refine inStep_get_bind fun d d' hNear => ?_
  subst hNear
  have hStack : (d.shift k).stack = d.stack := rfl
  have hCaptures : (d.shift k).captures = d.captures := rfl
  rw [hStack, hCaptures]
  by_cases hOpen : d.stack.length > 1
  · simp only [hOpen, if_true]
    exact ends_throw ⟨_, _, rfl, rfl⟩
  · simp only [hOpen, if_false]
    cases d.captures.getLast? with
    | none => exact ends_throw ⟨_, _, rfl, rfl⟩
    | some capture =>
      refine InStep.lift_bind (fun captured => ?_) d _ rfl
      have hBlock : (d.shift k).outline.block? Outline.root
          = (d.outline.block? Outline.root).map (Block.shift k) := block?_shift k d.outline _
      rw [hBlock]
      cases d.outline.block? Outline.root with
      | none => exact inStep_pure rfl
      | some root =>
        have hExtended : (root.shift k).extended = root.extended := rfl
        simp only [Option.map_some, hExtended]
        split
        · exact inStep_pure rfl
        · have hUpdate := update_merge_shift k captured d.outline Outline.root
          intro _ _ _
          exact ends_set ⟨_, rfl,
            congrArg (fun o => (⟨d.path, o, d.stack, d.captures⟩ : Draft)) hUpdate⟩

end Steps

end Transparency

end PageBlocks
