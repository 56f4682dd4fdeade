import Mathlib.Data.List.Nodup
import PageBlocks.Block.Rendering
import PageBlocks.Proofs.Outlines

/-!
# Outlines as trees

If the children of a block come after it and name it as their parent, nothing lies below itself, and
nothing lies below two children of one block (`Below.disjoint`). A walk through the tree then meets
each block that lies below its start once (`nodup_walkFrom`, `mem_walkFrom_iff`), and rendering ends
by itself: the recursion over the tree has one solution, in which the bound on the depth plays no
part (`render_eq`, `render_unique`).
-/

set_option autoImplicit false

namespace PageBlocks.Outline

open PageBlocks.Cache

/-- A block or one that lies below it. -/
inductive Below (o : Outline) (i : Nat) : Nat → Prop
  | self : Below o i i
  | child {j k : Nat} {b : Block} :
    Below o i j → o.block? j = some b → k ∈ b.children → Below o i k

/-- Children come after their parent and have its number. -/
def IsForest (o : Outline) : Prop :=
  ∀ {i j : Nat} {b : Block}, o.block? i = some b → j ∈ b.children →
    i < j ∧ ∃ c, o.block? j = some c ∧ c.parent = some i

namespace Below

variable {o : Outline}

theorem le (h : o.IsForest) {i j : Nat} (hBelow : Below o i j) : i ≤ j := by
  induction hBelow with
  | self => exact Nat.le_refl i
  | child _ hBlock hChild ih => exact Nat.le_trans ih (Nat.le_of_lt (h hBlock hChild).1)

theorem under {i j k : Nat} {b : Block} (hBlock : o.block? i = some b) (hChild : j ∈ b.children)
    (h : Below o j k) : Below o i k := by
  induction h with
  | self => exact child self hBlock hChild
  | child _ hBlockK hChildK ih => exact child ih hBlockK hChildK

/-- A block is the child of one other block only. -/
theorem parent_unique (h : o.IsForest) {i j k : Nat} {b c : Block}
    (hBlock : o.block? i = some b) (hChild : k ∈ b.children)
    (hBlockJ : o.block? j = some c) (hChildJ : k ∈ c.children) : i = j := by
  obtain ⟨-, d, hd, hUp⟩ := h hBlock hChild
  obtain ⟨-, e, he, hUpJ⟩ := h hBlockJ hChildJ
  rw [hd] at he
  cases he
  rw [hUp] at hUpJ
  exact Option.some.inj hUpJ

/-- Of two blocks above a third one, one is above the other. -/
theorem comparable (h : o.IsForest) {i j k : Nat} (hBelow : Below o i k) (hBelow' : Below o j k) :
    Below o i j ∨ Below o j i := by
  induction hBelow with
  | self => exact Or.inr hBelow'
  | child hAbove hBlock hChild ih =>
    cases hBelow' with
    | self => exact Or.inl (child hAbove hBlock hChild)
    | child hAbove' hBlock' hChild' =>
      have hParent := parent_unique h hBlock hChild hBlock' hChild'
      subst hParent
      exact ih hAbove'

theorem eq_of_siblings (h : o.IsForest) {i j k : Nat} {b : Block}
    (hBlock : o.block? i = some b) (hJ : j ∈ b.children) (hK : k ∈ b.children)
    (hBelow : Below o j k) : j = k := by
  cases hBelow with
  | self => rfl
  | child hAbove hBlock' hChild =>
    have hParent := parent_unique h hBlock hK hBlock' hChild
    subst hParent
    have hLt := (h hBlock hJ).1
    exact absurd (hAbove.le h) (Nat.not_le_of_lt hLt)

/-- Nothing lies below two children of a block. -/
theorem disjoint (h : o.IsForest) {i j k l : Nat} {b : Block}
    (hBlock : o.block? i = some b) (hJ : j ∈ b.children) (hK : k ∈ b.children)
    (hBelow : Below o j l) (hBelow' : Below o k l) : j = k := by
  rcases comparable h hBelow hBelow' with hUnder | hUnder
  · exact eq_of_siblings h hBlock hJ hK hUnder
  · exact (eq_of_siblings h hBlock hK hJ hUnder).symm

/-- What lies below a block is the block, or lies below one of its children. -/
theorem cases_children {i k : Nat} (h : Below o i k) :
    k = i ∨ ∃ b, o.block? i = some b ∧ ∃ j ∈ b.children, Below o j k := by
  induction h with
  | self => exact Or.inl rfl
  | @child j k c _ hBlock hChild ih =>
    rcases ih with rfl | ⟨b, hTop, l, hMem, hBelow⟩
    · exact Or.inr ⟨c, hBlock, k, hChild, self⟩
    · exact Or.inr ⟨b, hTop, l, hMem, child hBelow hBlock hChild⟩

end Below

/-! ## Walks -/

/-- The children of a block. -/
def childrenOf (o : Outline) (i : Nat) : List Nat := ((o.block? i).map Block.children).getD []

/-- The blocks that a walk from a block meets, each one before its children; the first argument
bounds the depth. -/
def walkFrom : Nat → Outline → Nat → List Nat
  | 0, _, _ => []
  | depth + 1, o, i => i :: (o.childrenOf i).flatMap (walkFrom depth o)

section Walks

variable {o : Outline}

theorem mem_childrenOf {i j : Nat} :
    j ∈ o.childrenOf i ↔ ∃ b, o.block? i = some b ∧ j ∈ b.children := by
  unfold childrenOf
  cases o.block? i with
  | none => simp
  | some b => simp

theorem below_of_mem_walkFrom {depth i k : Nat} (h : k ∈ o.walkFrom depth i) : Below o i k := by
  induction depth generalizing i with
  | zero => cases h
  | succ depth ih =>
    rcases List.mem_cons.mp h with rfl | hRest
    · exact Below.self
    · obtain ⟨j, hChild, hWalk⟩ := List.mem_flatMap.mp hRest
      obtain ⟨b, hBlock, hMem⟩ := mem_childrenOf.mp hChild
      exact (ih hWalk).under hBlock hMem

/-- A walk meets no block twice: its parts below two children have nothing in common, and the start
is below none of them. -/
theorem nodup_walkFrom (h : o.IsForest)
    (hDistinct : ∀ i b, o.block? i = some b → b.children.Nodup) (depth i : Nat) :
    (o.walkFrom depth i).Nodup := by
  induction depth generalizing i with
  | zero => exact List.nodup_nil
  | succ depth ih =>
    refine List.nodup_cons.mpr ⟨fun hAgain => ?_, List.nodup_flatMap.mpr ⟨fun j _ => ih j, ?_⟩⟩
    · obtain ⟨j, hChild, hWalk⟩ := List.mem_flatMap.mp hAgain
      obtain ⟨b, hBlock, hMem⟩ := mem_childrenOf.mp hChild
      have hLe := (below_of_mem_walkFrom hWalk).le h
      exact absurd hLe (Nat.not_le_of_lt (h hBlock hMem).1)
    · cases hBlock : o.block? i with
      | none =>
        have hNone : o.childrenOf i = [] := by
          rw [childrenOf, hBlock]
          rfl
        rw [hNone]
        exact List.Pairwise.nil
      | some b =>
        have hSome : o.childrenOf i = b.children := by
          rw [childrenOf, hBlock]
          rfl
        rw [hSome]
        refine List.Pairwise.imp_of_mem ?_ (hDistinct i b hBlock)
        intro j k hJ hK hNe l hWalkJ hWalkK
        exact hNe (Below.disjoint h hBlock hJ hK (below_of_mem_walkFrom hWalkJ)
          (below_of_mem_walkFrom hWalkK))

/-- A walk that may go as deep as there are blocks meets whatever lies below its start. -/
theorem mem_walkFrom_iff (h : o.IsForest) {depth i k : Nat} (hDepth : o.blocks.length < i + depth)
    (hStart : i < o.blocks.length) : k ∈ o.walkFrom depth i ↔ Below o i k := by
  refine ⟨below_of_mem_walkFrom, fun hBelow => ?_⟩
  induction depth generalizing i with
  | zero => omega
  | succ depth ih =>
    rcases hBelow.cases_children with rfl | ⟨b, hBlock, j, hChild, hUnder⟩
    · exact List.mem_cons_self
    · obtain ⟨hLt, c, hc, -⟩ := h hBlock hChild
      have hWalk := ih (by omega) (lt_of_block?_eq_some hc) hUnder
      exact List.mem_cons_of_mem _
        (List.mem_flatMap.mpr ⟨j, mem_childrenOf.mpr ⟨b, hBlock, hChild⟩, hWalk⟩)

/-! ## Rendering -/

theorem filterMapM_congr {m : Type → Type} [Monad m] [LawfulMonad m] {α β : Type}
    {f g : α → m (Option β)} {l : List α} (h : ∀ a ∈ l, f a = g a) :
    l.filterMapM f = l.filterMapM g := by
  induction l with
  | nil => rfl
  | cons a l ih =>
    rw [List.forall_mem_cons] at h
    rw [List.filterMapM_cons, List.filterMapM_cons, h.1, ih h.2]

/-- The output of a block depends on how its children are rendered. -/
theorem compose_congr {render render' : Nat → VaultM String} {b : Block}
    (h : ∀ j ∈ b.children, render j = render' j) :
    compose render o b = compose render' o b := by
  unfold compose
  refine congrArg (fun gathered : VaultM (List (String × String)) =>
    gathered >>= fun rendered => pure (b.splice (Table.ofBindings rendered)))
    (filterMapM_congr fun j hMem => ?_)
  cases o.block? j with
  | none => rfl
  | some child => simp only [h j hMem]

/-- The output of a block if a function renders its children: one step of rendering. -/
def renderStep (memo : Option Memo) (o : Outline) (render : Nat → VaultM String) (i : Nat) :
    VaultM String :=
  match o.block? i with
  | none => pure ""
  | some b =>
    match b.kind, memo with
    | .cacheable, some memo => remembered memo b (compose render o b)
    | _, _ => compose render o b

theorem renderFrom_succ (depth : Nat) (memo : Option Memo) (i : Nat) :
    renderFrom (depth + 1) memo o i = renderStep memo o (renderFrom depth memo o) i := by
  rw [renderFrom, renderStep]
  cases o.block? i with
  | none => rfl
  | some b =>
    dsimp only
    cases b.kind <;> cases memo <;> rfl

theorem renderStep_congr (memo : Option Memo) {render render' : Nat → VaultM String} {i : Nat}
    (h : ∀ j ∈ o.childrenOf i, render j = render' j) :
    renderStep memo o render i = renderStep memo o render' i := by
  unfold renderStep
  cases hBlock : o.block? i with
  | none => rfl
  | some b =>
    have hComposed : compose render o b = compose render' o b :=
      compose_congr fun j hMem => h j (mem_childrenOf.mpr ⟨b, hBlock, hMem⟩)
    simp only [hComposed]

/-- What goes by the recursion over the tree does not depend on what it starts from, as soon as it
has gone as deep as there are blocks. -/
theorem eq_of_steps (h : o.IsForest) {memo : Option Memo} {f g : Nat → Nat → VaultM String}
    (hf : ∀ depth i, f (depth + 1) i = renderStep memo o (f depth) i)
    (hg : ∀ depth i, g (depth + 1) i = renderStep memo o (g depth) i) {depth i : Nat}
    (hDepth : o.blocks.length ≤ i + depth) : f (depth + 1) i = g (depth + 1) i := by
  induction depth generalizing i with
  | zero =>
    have hNone : o.block? i = none := List.getElem?_eq_none hDepth
    rw [hf, hg]
    simp only [renderStep, hNone]
  | succ depth ih =>
    rw [hf, hg]
    refine renderStep_congr memo fun j hChild => ih ?_
    obtain ⟨b, hBlock, hMem⟩ := mem_childrenOf.mp hChild
    have hLt := (h hBlock hMem).1
    omega

/-- Rendering goes by the recursion over the tree: the bound on the depth cuts nothing off. -/
theorem render_eq (h : o.IsForest) (memo : Option Memo) (i : Nat) :
    o.render memo i = renderStep memo o (o.render memo) i := by
  rw [render, renderFrom_succ]
  refine renderStep_congr memo fun j hChild => ?_
  obtain ⟨b, hBlock, hMem⟩ := mem_childrenOf.mp hChild
  have hLt := (h hBlock hMem).1
  have hHere := lt_of_block?_eq_some hBlock
  obtain ⟨depth, hDepth⟩ : ∃ depth, o.blocks.length = depth + 1 :=
    ⟨o.blocks.length - 1, by omega⟩
  rw [render, hDepth]
  exact eq_of_steps h (f := fun depth => renderFrom depth memo o)
    (g := fun depth => renderFrom (depth + 1) memo o) (fun depth => renderFrom_succ depth memo)
    (fun depth => renderFrom_succ (depth + 1) memo) (by omega)

/-- The recursion over the tree has one solution, which is rendering. -/
theorem render_unique (h : o.IsForest) {memo : Option Memo} {render : Nat → VaultM String}
    (hRender : ∀ i, render i = renderStep memo o render i) : render = o.render memo :=
  funext fun i => eq_of_steps h (f := fun _ => render) (g := fun depth => renderFrom depth memo o)
    (fun _ => hRender) (fun depth => renderFrom_succ depth memo) (Nat.le_add_left _ i)

/-- Going from blocks to children ends. -/
theorem wellFounded_childrenOf (h : o.IsForest) : WellFounded fun j i => j ∈ o.childrenOf i := by
  refine Subrelation.wf (fun {j i} hChild => ?_) (measure fun i => o.blocks.length - i).wf
  obtain ⟨b, hBlock, hMem⟩ := mem_childrenOf.mp hChild
  have hLt := (h hBlock hMem).1
  have hHere := lt_of_block?_eq_some hBlock
  show o.blocks.length - j < o.blocks.length - i
  omega

end Walks

end PageBlocks.Outline
