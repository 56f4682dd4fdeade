import PageBlocks.Block.Rendering
import PageBlocks.Proofs.Drafts
import PageBlocks.Proofs.Running

/-!
# Outlines without cacheable blocks

If no cacheable block is declared, none comes up: every step of a draft keeps the outline without
one, a step that fails included. The output of such an outline does not depend on the caches, and
rendering it leaves them alone (`exists_run_render`).
-/

set_option autoImplicit false

namespace PageBlocks.Upkeep

open PageBlocks.Cache PageBlocks.Running

/-- Whether an outline has no cacheable block. -/
def Uncached (o : Outline) : Prop := ∀ b ∈ o.blocks, b.kind ≠ .cacheable

theorem uncached_empty : Uncached {} := fun _ hMem => absurd hMem List.not_mem_nil

theorem uncached_start (owner : String) : Uncached (Outline.start owner) := by
  intro b hMem
  rw [Outline.start, List.mem_singleton] at hMem
  subst hMem
  exact nofun

/-! ## Steps of drafts -/

/-- Every step keeps an outline without cacheable blocks, as long as none is declared. -/
theorem lasting_uncached : Draft.Lasting Uncached fun b => b.kind ≠ .cacheable where
  plain _ _ := nofun
  update h hSame := Outline.forall_mem_update h fun b hOld => by
    rw [(hSame b).2]
    exact hOld
  declare h hNew _ := Outline.forall_mem_addChild (P := fun b => b.kind ≠ .cacheable) h hNew
    (fun _ _ hOld => hOld) fun _ _ hOld => hOld

/-! ## Rendering -/

section Rendering

variable {o : Outline}

/-- A computation on the caches has the same result whatever they hold, and leaves them alone. -/
def Aloof {α : Type} (x : VaultM α) : Prop := ∃ result, ∀ v, x.run v = (result, v)

theorem Aloof.bind {α β : Type} {x : VaultM α} {f : α → VaultM β} (h : Aloof x)
    (hNext : ∀ a, Aloof (f a)) : Aloof (x >>= f) := by
  obtain ⟨result, hRun⟩ := h
  cases result with
  | error fault => exact ⟨.error fault, fun v => by rw [run_bind, hRun]⟩
  | ok a =>
    obtain ⟨next, hRunNext⟩ := hNext a
    exact ⟨next, fun v => (run_bind_of_ok (hRun v) f).trans (hRunNext v)⟩

theorem aloof_pure {α : Type} (a : α) : Aloof (pure a : VaultM α) := ⟨.ok a, fun _ => rfl⟩

theorem aloof_compose {renderChild : Nat → VaultM String} (hRender : ∀ i, Aloof (renderChild i))
    (b : Block) : Aloof (Outline.compose renderChild o b) := by
  have hChild : ∀ i, Aloof (Outline.childOutput renderChild o i) := by
    intro i
    unfold Outline.childOutput
    cases o.block? i with
    | none => exact aloof_pure none
    | some child => exact (hRender i).bind fun text => aloof_pure _
  have hAll : ∀ children : List Nat,
      Aloof (children.filterMapM (Outline.childOutput renderChild o)) := by
    intro children
    induction children with
    | nil => exact aloof_pure []
    | cons i rest ih =>
      rw [List.filterMapM_cons]
      refine (hChild i).bind fun found => ?_
      cases found with
      | none => exact ih
      | some entry => exact ih.bind fun rendered => aloof_pure _
  rw [Outline.compose_eq]
  exact (hAll b.children).bind fun rendered => aloof_pure _

theorem aloof_renderFrom (h : Uncached o) (memo : Option Memo) (depth i : Nat) :
    Aloof (Outline.renderFrom depth memo o i) := by
  induction depth generalizing i with
  | zero => exact ⟨.error (.host .tooDeep), fun _ => rfl⟩
  | succ depth ih =>
    unfold Outline.renderFrom
    cases hBlock : o.block? i with
    | none => exact aloof_pure ""
    | some b =>
      have hKind := h b (Outline.mem_of_block?_eq_some hBlock)
      dsimp only
      split
      · rename_i hCacheable
        exact absurd hCacheable hKind
      · exact aloof_compose ih b

/-- Without cacheable blocks, the output of a block does not depend on the caches, and rendering it
leaves them alone. -/
theorem exists_run_render (h : Uncached o) (memo : Option Memo) (i : Nat) :
    ∃ result, ∀ v, (o.render memo i).run v = (result, v) :=
  aloof_renderFrom h memo _ i

end Rendering

end PageBlocks.Upkeep
