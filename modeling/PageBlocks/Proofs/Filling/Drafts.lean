import PageBlocks.Proofs.Drafts
import PageBlocks.Proofs.Filling.Texts

/-!
# Drafts whose places belong to their blocks

A token may stand in the content of a block, or in the text captured for it, only if it is the token
of a child of that block (`Whole`, `Aligned`). Each capture belongs to the open block of its depth,
so a token that closing a block writes goes to the block around it, whose child the closed block is
(`Stacked`). Blocks keep their identities and their children (`Extends`), whatever a step does, so
what is said of the text for one block survives all changes of the others.
-/

set_option autoImplicit false

namespace PageBlocks.Filling

open PageBlocks.Deferral PageBlocks.Running

/-! ## Outlines -/

/-- The identities of the children of a block. -/
def Owns (o : Outline) (i : Nat) (id : List Char) : Prop :=
  ∃ b, o.block? i = some b ∧ ∃ j ∈ b.children, ∃ child, o.block? j = some child
    ∧ child.id.toList = id

/-- An outline in which the content of each block has places for its own children only. -/
structure Whole (o : Outline) : Prop where
  root : 0 < o.blocks.length
  names : ∀ entry ∈ o.registry, entry.2 < o.blocks.length
  ids : ∀ i b, o.block? i = some b → Token.isId b.id.toList = true
  content : ∀ i b, o.block? i = some b → Holds (Owns o i) b.content.toList

/-- An outline later on: the blocks are still there, with their identities and their children. -/
def Extends (o o' : Outline) : Prop :=
  ∀ i b, o.block? i = some b → ∃ b', o'.block? i = some b' ∧ b'.id = b.id
    ∧ (∀ j ∈ b.children, j ∈ b'.children) ∧ (b.extended = true → b'.extended = true)

section Outlines

variable {o o' o'' : Outline} {i : Nat}

theorem Extends.refl (o : Outline) : Extends o o :=
  fun _ b h => ⟨b, h, rfl, fun _ hMem => hMem, id⟩

theorem Extends.trans (h : Extends o o') (h' : Extends o' o'') : Extends o o'' := by
  intro i b hBlock
  obtain ⟨b₁, hBlock₁, hId₁, hChildren₁, hExtended₁⟩ := h i b hBlock
  obtain ⟨b₂, hBlock₂, hId₂, hChildren₂, hExtended₂⟩ := h' i b₁ hBlock₁
  exact ⟨b₂, hBlock₂, hId₂.trans hId₁, fun j hMem => hChildren₂ j (hChildren₁ j hMem),
    fun hWas => hExtended₂ (hExtended₁ hWas)⟩

theorem Extends.owns (h : Extends o o') {id : List Char} (hOwns : Owns o i id) : Owns o' i id := by
  obtain ⟨b, hBlock, j, hMem, child, hChild, hId⟩ := hOwns
  obtain ⟨b', hBlock', -, hChildren, -⟩ := h i b hBlock
  obtain ⟨child', hChild', hSame, -⟩ := h j child hChild
  exact ⟨b', hBlock', j, hChildren j hMem, child', hChild', by rw [hSame, hId]⟩

theorem exists_block (h : i < o.blocks.length) : ∃ b, o.block? i = some b :=
  ⟨o.blocks[i], List.getElem?_eq_getElem h⟩

theorem Extends.lt (h : Extends o o') (hLt : i < o.blocks.length) : i < o'.blocks.length := by
  obtain ⟨b, hBlock⟩ := exists_block hLt
  obtain ⟨b', hBlock', -⟩ := h i b hBlock
  exact Outline.lt_of_block?_eq_some hBlock'

/-- Replacing a block by one with the same identity and the same children. -/
theorem extends_update {f : Block → Block} (hId : ∀ b, (f b).id = b.id)
    (hChildren : ∀ b, (f b).children = b.children)
    (hExtended : ∀ b, b.extended = true → (f b).extended = true) : Extends o (o.update i f) := by
  intro j b hBlock
  rw [Outline.block?_update, hBlock]
  split
  · exact ⟨f b, rfl, hId b, fun _ hMem => hChildren b ▸ hMem, hExtended b⟩
  · exact ⟨b, rfl, rfl, fun _ hMem => hMem, id⟩

theorem extends_merge (o : Outline) (i : Nat) (captured : String) :
    Extends o (o.update i fun b => b.merge captured) :=
  extends_update (fun _ => rfl) (fun _ => rfl) fun _ => id

/-- Replacing a block by one with another content. -/
theorem Whole.update (h : Whole o) {f : Block → Block} (hId : ∀ b, (f b).id = b.id)
    (hChildren : ∀ b, (f b).children = b.children)
    (hExtended : ∀ b, b.extended = true → (f b).extended = true)
    (hContent : ∀ b, o.block? i = some b → Holds (Owns o i) (f b).content.toList) :
    Whole (o.update i f) := by
  have hExtends : Extends o (o.update i f) := extends_update hId hChildren hExtended
  refine ⟨hExtends.lt h.root, fun entry hMem => hExtends.lt (h.names entry hMem), ?_, ?_⟩
  · intro j b hBlock
    rw [Outline.block?_update] at hBlock
    split at hBlock
    · obtain ⟨old, hOld, rfl⟩ := Option.map_eq_some_iff.mp hBlock
      rw [hId]
      exact h.ids j old hOld
    · exact h.ids j b hBlock
  · intro j b hBlock
    refine Holds.mono ?_ fun _ hOwns => hExtends.owns hOwns
    rw [Outline.block?_update] at hBlock
    split at hBlock
    · rename_i hSame
      obtain ⟨old, hOld, rfl⟩ := Option.map_eq_some_iff.mp hBlock
      subst hSame
      exact hContent old hOld
    · exact h.content j b hBlock

/-- A new block, as it is when it is declared. -/
structure IsBlank (b : Block) : Prop where
  id : Token.isId b.id.toList = true
  content : b.content = ""
  children : b.children = []

theorem isBlank_plain (owner : String) (name : Value) : IsBlank (Block.plain owner name) :=
  ⟨Token.isId_digest _, rfl, rfl⟩

theorem isBlank_of_declare {owner : String} {name lifetime : Value} {kind : BlockKind}
    {transform : Option Transform} {b : Block}
    (h : Block.declare owner name kind lifetime transform = .ok b) : IsBlank b := by
  unfold Block.declare at h
  split at h
  · cases h
  · cases h
    exact ⟨Token.isId_digest _, rfl, rfl⟩

theorem extends_addChild {parent : Nat} (hParent : parent < o.blocks.length) (b : Block) :
    Extends o (o.addChild parent b).2 := by
  intro j old hBlock
  have hNe := Nat.ne_of_lt (Outline.lt_of_block?_eq_some hBlock)
  rw [Outline.block?_addChild hParent, if_neg hNe, hBlock]
  split
  · exact ⟨_, rfl, rfl, fun _ hMem => List.mem_append_left _ hMem, id⟩
  · exact ⟨old, rfl, rfl, fun _ hMem => hMem, id⟩

/-- The new block is a child of the block that it was added to. -/
theorem mem_children_addChild {parent : Nat} (hParent : parent < o.blocks.length) (b : Block) :
    ∃ around, (o.addChild parent b).2.block? parent = some around
      ∧ o.blocks.length ∈ around.children := by
  obtain ⟨old, hOld⟩ := exists_block hParent
  rw [Outline.block?_addChild hParent, if_neg (Nat.ne_of_lt hParent), if_pos rfl, hOld]
  exact ⟨_, rfl, List.mem_append_right _ (List.mem_singleton_self _)⟩

theorem Whole.addChild (h : Whole o) {parent : Nat} (hParent : parent < o.blocks.length) {b : Block}
    (hNew : IsBlank b) : Whole (o.addChild parent b).2 := by
  have hExtends := extends_addChild hParent b
  -- each block has the identity and the content of an old one, or those of the new one
  have hCases : ∀ j other, (o.addChild parent b).2.block? j = some other →
      (∃ old, o.block? j = some old ∧ other.id = old.id ∧ other.content = old.content)
        ∨ other.id = b.id ∧ other.content = "" := by
    intro j other hBlock
    rw [Outline.block?_addChild hParent] at hBlock
    split at hBlock
    · cases hBlock
      exact .inr ⟨rfl, hNew.content⟩
    · split at hBlock
      · obtain ⟨old, hOld, rfl⟩ := Option.map_eq_some_iff.mp hBlock
        exact .inl ⟨old, hOld, rfl, rfl⟩
      · exact .inl ⟨other, hBlock, rfl, rfl⟩
  refine ⟨hExtends.lt h.root, fun entry hMem => hExtends.lt (h.names entry hMem), ?_, ?_⟩
  · intro j other hBlock
    rcases hCases j other hBlock with ⟨old, hOld, hId, -⟩ | ⟨hId, -⟩
    · rw [hId]
      exact h.ids j old hOld
    · rw [hId]
      exact hNew.id
  · intro j other hBlock
    rcases hCases j other hBlock with ⟨old, hOld, -, hContent⟩ | ⟨-, hContent⟩
    · rw [hContent]
      exact (h.content j old hOld).mono fun _ hOwns => hExtends.owns hOwns
    · rw [hContent]
      exact .nil

theorem Whole.register (h : Whole o) (name : Value) {i : Nat} (hLt : i < o.blocks.length) :
    Whole (o.register name i) := by
  refine ⟨h.root, fun entry hMem => ?_, h.ids, h.content⟩
  rcases Table.mem_insert hMem with hOld | ⟨hSame, -⟩
  · exact h.names entry hOld
  · rw [hSame]
    exact hLt

theorem whole_start (owner : String) : Whole (Outline.start owner) := by
  have hOnly : ∀ j b, (Outline.start owner).block? j = some b →
      b = Block.plain owner Outline.rootName := by
    intro j b hBlock
    have hMem := Outline.mem_of_block?_eq_some hBlock
    rwa [Outline.start, List.mem_singleton] at hMem
  refine ⟨Nat.one_pos, ?_, ?_, ?_⟩
  · intro entry hMem
    cases List.mem_singleton.mp hMem
    exact Nat.one_pos
  · intro j b hBlock
    rw [hOnly j b hBlock]
    exact Token.isId_digest _
  · intro j b hBlock
    rw [hOnly j b hBlock]
    exact .nil

end Outlines

/-! ## Open blocks and captured texts -/

/-- Open blocks, innermost first: the outermost is the root, and each of the others was declared
again or is a child of the block around it. -/
def Stacked (o : Outline) : List Nat → Prop
  | [] => False
  | [i] => i = Outline.root ∧ i < o.blocks.length
  | i :: j :: rest =>
    (∃ b, o.block? i = some b ∧ (b.extended = true
      ∨ ∃ around, o.block? j = some around ∧ i ∈ around.children)) ∧ Stacked o (j :: rest)

/-- A text that is captured for a block has places for the children of that block only. -/
def CaptureHolds (o : Outline) (i : Nat) (capture : Capture) : Prop :=
  ∀ s, capture = .text s → Holds (Owns o i) s.toList

/-- Captured texts, each for the open block of its depth. -/
def Aligned (o : Outline) : List Nat → List Capture → Prop
  | _, [] => True
  | [], _ :: _ => False
  | i :: stack, capture :: captures => CaptureHolds o i capture ∧ Aligned o stack captures

/-- A draft in which every place is one for a child of the block that the text is for. -/
structure Placed (d : Draft) : Prop where
  outline : Whole d.outline
  stack : Stacked d.outline d.stack
  captures : Aligned d.outline d.stack d.captures

section Drafts

variable {o o' : Outline} {stack : List Nat} {captures : List Capture}

theorem aligned_nil (o : Outline) (stack : List Nat) : Aligned o stack [] := by
  cases stack <;> exact trivial

theorem Stacked.lt_head {i : Nat} (h : Stacked o (i :: stack)) : i < o.blocks.length := by
  cases stack with
  | nil => exact h.2
  | cons j rest =>
    obtain ⟨b, hBlock, -⟩ := h.1
    exact Outline.lt_of_block?_eq_some hBlock

theorem Stacked.lt_current {d : Draft} (h : Stacked d.outline d.stack) :
    d.current < d.outline.blocks.length := by
  unfold Draft.current
  cases hStack : d.stack with
  | nil =>
    rw [hStack] at h
    exact h.elim
  | cons i rest =>
    rw [hStack] at h
    exact h.lt_head

theorem Stacked.extend (h : Stacked o stack) (hExtends : Extends o o') : Stacked o' stack := by
  induction stack with
  | nil => exact h
  | cons i stack ih =>
    cases stack with
    | nil => exact ⟨h.1, hExtends.lt h.2⟩
    | cons j rest =>
      obtain ⟨⟨b, hBlock, hOpen⟩, hBelow⟩ := h
      obtain ⟨b', hBlock', -, -, hExtended⟩ := hExtends i b hBlock
      refine ⟨⟨b', hBlock', hOpen.imp hExtended ?_⟩, ih hBelow⟩
      rintro ⟨around, hAround, hChild⟩
      obtain ⟨around', hAround', -, hChildren, -⟩ := hExtends j around hAround
      exact ⟨around', hAround', hChildren i hChild⟩

theorem CaptureHolds.extend {i : Nat} {capture : Capture} (h : CaptureHolds o i capture)
    (hExtends : Extends o o') : CaptureHolds o' i capture :=
  fun s hText => (h s hText).mono fun _ hOwns => hExtends.owns hOwns

theorem Aligned.extend (h : Aligned o stack captures) (hExtends : Extends o o') :
    Aligned o' stack captures := by
  induction stack generalizing captures with
  | nil =>
    cases captures with
    | nil => exact aligned_nil _ _
    | cons capture rest => exact h.elim
  | cons i stack ih =>
    cases captures with
    | nil => exact aligned_nil _ _
    | cons capture rest => exact ⟨h.1.extend hExtends, ih h.2⟩

theorem captureHolds_empty (o : Outline) (i : Nat) : CaptureHolds o i Capture.empty := by
  intro s hText
  cases hText
  exact .nil

theorem CaptureHolds.read {i : Nat} {capture : Capture} {captured : String}
    (h : CaptureHolds o i capture) (hRead : capture.read = .ok captured) :
    Holds (Owns o i) captured.toList := by
  cases capture with
  | text s =>
    cases hRead
    exact h captured rfl
  | spoiled => cases hRead

/-- A written value may go to a block if its text has places for children of the block only. -/
def MayWrite (o : Outline) (i : Nat) (v : Value) : Prop :=
  ∀ s, v = .text s → Holds (Owns o i) s.toList

theorem CaptureHolds.add {i : Nat} {capture : Capture} {v : Value} (h : CaptureHolds o i capture)
    (hWritten : MayWrite o i v) : CaptureHolds o i (capture.add v) := by
  intro s hText
  cases capture with
  | spoiled => cases hText
  | text t =>
    cases v with
    | text u =>
      cases hText
      rw [String.toList_append]
      exact (h t rfl).append (hWritten u rfl)
    | _ => cases hText

end Drafts

/-! ## Steps -/

/-- A draft after a step, also if the step failed. -/
structure Onward (d d' : Draft) : Prop where
  placed : Placed d'
  outline : Extends d.outline d'.outline

/-- A step keeps every place with the block that it belongs to, also when it fails. -/
def KeepsPlaced {α : Type} (x : DraftM α) : Prop :=
  ∀ d, Placed d → Ends x d (fun _ d' => Onward d d') fun d' => Onward d d'

section Steps

variable {d d' d'' : Draft} {i : Nat}

theorem Onward.refl (h : Placed d) : Onward d d := ⟨h, Extends.refl _⟩

theorem Onward.trans (h : Onward d d') (h' : Onward d' d'') : Onward d d'' :=
  ⟨h'.placed, h.outline.trans h'.outline⟩

/-- A step after which another one follows. -/
theorem Onward.then {α : Type} {x : DraftM α} (h : Onward d d') (hNext : KeepsPlaced x) :
    Ends x d' (fun _ d'' => Onward d d'') fun d'' => Onward d d'' :=
  Ends.mono (hNext d' h.placed) (fun _ _ h' => h.trans h') fun _ h' => h.trans h'

/-- A block may be opened on top of others if it was declared again, or is a child of the innermost
one. -/
def MayOpen (d : Draft) (i : Nat) : Prop :=
  ∃ b, d.outline.block? i = some b ∧ (b.extended = true
    ∨ ∃ around, d.outline.block? d.current = some around ∧ i ∈ around.children)

theorem Placed.push (h : Placed d) (hOpen : MayOpen d i) (mode : ApplyMode) :
    Onward d { d with
      outline := d.outline.update i fun b => { b with mode }
      stack := i :: d.stack
      captures := Capture.empty :: d.captures } := by
  have hExtends : Extends d.outline (d.outline.update i fun b => { b with mode }) :=
    extends_update (fun _ => rfl) (fun _ => rfl) fun _ => id
  have hStacked : Stacked d.outline (i :: d.stack) := by
    unfold MayOpen Draft.current at hOpen
    have hStack := h.stack
    cases hOld : d.stack with
    | nil =>
      rw [hOld] at hStack
      exact hStack.elim
    | cons j rest =>
      rw [hOld] at hOpen hStack
      exact ⟨hOpen, hStack⟩
  refine ⟨⟨?_, hStacked.extend hExtends, ?_⟩, hExtends⟩
  · exact h.outline.update (fun _ => rfl) (fun _ => rfl) (fun _ => id) fun b hBlock =>
      h.outline.content i b hBlock
  · exact ⟨captureHolds_empty _ _, h.captures.extend hExtends⟩

theorem Placed.markExtended (h : Placed d) (i : Nat) :
    Onward d { d with outline := d.outline.update i fun b => { b with extended := true } } := by
  have hExtends : Extends d.outline (d.outline.update i fun b => { b with extended := true }) :=
    extends_update (fun _ => rfl) (fun _ => rfl) fun _ _ => rfl
  refine ⟨⟨?_, h.stack.extend hExtends, h.captures.extend hExtends⟩, hExtends⟩
  exact h.outline.update (fun _ => rfl) (fun _ => rfl) (fun _ _ => rfl) fun b hBlock =>
    h.outline.content i b hBlock

/-- A block that is there already is marked before it is opened. -/
theorem Placed.reopen (h : Placed d) (hLt : i < d.outline.blocks.length) (mode : ApplyMode) :
    Onward d { d with
      outline := (d.outline.update i fun b => { b with extended := true }).update i
        fun b => { b with mode }
      stack := i :: d.stack
      captures := Capture.empty :: d.captures } := by
  have hMarked := h.markExtended i
  obtain ⟨b, hBlock⟩ := exists_block hLt
  have hOpen : MayOpen { d with
      outline := d.outline.update i fun b => { b with extended := true } } i := by
    refine ⟨{ b with extended := true }, ?_, .inl rfl⟩
    show (d.outline.update i fun b => { b with extended := true }).block? i = _
    rw [Outline.block?_update_self, hBlock]
    rfl
  exact hMarked.trans (hMarked.placed.push hOpen mode)

/-- A new block is opened as a child of the innermost one. -/
theorem Placed.openNew (h : Placed d) {b : Block} (hNew : IsBlank b) (mode : ApplyMode) :
    Onward d { d with
      outline := ((d.outline.addChild d.current b).2.register b.name d.outline.blocks.length).update
        d.outline.blocks.length fun b => { b with mode }
      stack := d.outline.blocks.length :: d.stack
      captures := Capture.empty :: d.captures } := by
  have hParent := h.stack.lt_current
  have hExtends := extends_addChild hParent b
  have hLength : (d.outline.addChild d.current b).2.blocks.length = d.outline.blocks.length + 1 :=
    Outline.length_addChild _ _
  have hAdded : Onward d { d with
      outline := (d.outline.addChild d.current b).2.register b.name d.outline.blocks.length } := by
    refine ⟨⟨?_, h.stack.extend hExtends, h.captures.extend hExtends⟩, hExtends⟩
    exact (h.outline.addChild hParent hNew).register b.name (by omega)
  have hOpen : MayOpen { d with
      outline := (d.outline.addChild d.current b).2.register b.name d.outline.blocks.length }
      d.outline.blocks.length := by
    obtain ⟨new, hBlock⟩ := exists_block (o := (d.outline.addChild d.current b).2)
      (i := d.outline.blocks.length) (by omega)
    exact ⟨new, hBlock, .inr (mem_children_addChild hParent b)⟩
  exact hAdded.trans (hAdded.placed.push hOpen mode)

theorem lt_of_find? (h : Placed d) {name : Value} (hFind : d.outline.find? name = some i) :
    i < d.outline.blocks.length := by
  obtain ⟨key, hMem⟩ := Table.exists_mem_of_get?_eq_some hFind
  exact h.outline.names _ hMem

/-- Writing puts a text behind the one that is captured for the innermost block. -/
theorem Placed.write (h : Placed d) {v : Value} {capture : Capture} {rest : List Capture}
    (hWritten : MayWrite d.outline d.current v) (hCaptures : d.captures = capture :: rest) :
    Onward d { d with captures := capture.add v :: rest } := by
  have hAligned := h.captures
  rw [hCaptures] at hAligned
  refine ⟨⟨h.outline, h.stack, ?_⟩, Extends.refl _⟩
  unfold Draft.current at hWritten
  cases hStack : d.stack with
  | nil =>
    rw [hStack] at hAligned
    exact hAligned.elim
  | cons i stack =>
    rw [hStack] at hAligned hWritten
    exact ⟨hAligned.1.add hWritten, hAligned.2⟩

theorem ends_write (h : Placed d) {v : Value} (hWritten : MayWrite d.outline d.current v) :
    Ends (Draft.write v) d (fun _ d' => Onward d d') fun d' => Onward d d' := by
  refine ends_get_bind ?_
  split
  · exact ends_throw (Onward.refl h)
  · rename_i hCaptures
    exact ends_set (h.write hWritten hCaptures)

theorem holds_merge {o : Outline} {b : Block} {captured : String}
    (hContent : Holds (Owns o i) b.content.toList) (hCaptured : Holds (Owns o i) captured.toList) :
    Holds (Owns o i) (b.merge captured).content.toList := by
  have hMode : ∀ mode : ApplyMode, Holds (Owns o i) (mode.apply b.content captured).toList := by
    intro mode
    cases mode with
    | replace => exact hCaptured
    | prepend =>
      rw [ApplyMode.apply, String.toList_append]
      exact hCaptured.append hContent
    | append =>
      rw [ApplyMode.apply, String.toList_append]
      exact hContent.append hCaptured
  exact hMode b.mode

theorem Whole.merge {o : Outline} (h : Whole o) {captured : String}
    (hCaptured : Holds (Owns o i) captured.toList) : Whole (o.update i fun b => b.merge captured) :=
  h.update (fun _ => rfl) (fun _ => rfl) (fun _ => id) fun b hBlock =>
    holds_merge (h.content i b hBlock) hCaptured

/-- A block is closed, and its text joins it. -/
theorem Placed.close (h : Placed d) {j : Nat} {below : List Nat} {capture : Capture}
    {rest : List Capture} {captured : String} (hStack : d.stack = i :: j :: below)
    (hCaptures : d.captures = capture :: rest) (hRead : capture.read = .ok captured) :
    Onward d { d with
      outline := d.outline.update i fun b => b.merge captured
      stack := j :: below
      captures := rest } := by
  have hStacked := h.stack
  have hAligned := h.captures
  rw [hStack] at hStacked
  rw [hStack, hCaptures] at hAligned
  have hExtends := extends_merge d.outline i captured
  exact ⟨⟨h.outline.merge (hAligned.1.read hRead), hStacked.2.extend hExtends,
    hAligned.2.extend hExtends⟩, hExtends⟩

/-- The token of a block that was declared once may go to the block around it, whose child it is. -/
theorem Placed.mayWrite_token (h : Placed d) {j : Nat} {below : List Nat} {b : Block}
    {captured : String} (hStack : d.stack = i :: j :: below) (hBlock : d.outline.block? i = some b)
    (hFirst : b.extended ≠ true) :
    MayWrite (d.outline.update i fun b => b.merge captured) j (.text b.token) := by
  have hStacked := h.stack
  rw [hStack] at hStacked
  obtain ⟨⟨b', hBlock', hOwn⟩, -⟩ := hStacked
  rw [hBlock] at hBlock'
  cases hBlock'
  obtain ⟨around, hAround, hChild⟩ := hOwn.resolve_left hFirst
  have hExtends := extends_merge d.outline i captured
  intro s hText
  cases hText
  rw [Block.token, String.toList_ofList]
  refine holds_ofId (h.outline.ids i b hBlock) (hExtends.owns ?_)
  exact ⟨around, hAround, i, hChild, b, hBlock, rfl⟩

theorem keepsPlaced_resetCaptures : KeepsPlaced Draft.resetCaptures := by
  intro d h
  refine ends_modify ⟨⟨h.outline, h.stack, ?_⟩, Extends.refl _⟩
  have hStack := h.stack
  show Aligned d.outline d.stack [Capture.empty]
  cases hOpen : d.stack with
  | nil =>
    rw [hOpen] at hStack
    exact hStack.elim
  | cons i stack => exact ⟨captureHolds_empty _ _, aligned_nil _ _⟩

/-- When only the root is open, the one captured text that there may be is the root's. -/
theorem holds_of_getLast? (h : Placed d) (hClosed : ¬ d.stack.length > 1) {capture : Capture}
    (hLast : d.captures.getLast? = some capture) : CaptureHolds d.outline Outline.root capture := by
  have hStack := h.stack
  have hAligned := h.captures
  cases hOpen : d.stack with
  | nil =>
    rw [hOpen] at hStack
    exact hStack.elim
  | cons i below =>
    cases below with
    | cons j rest =>
      rw [hOpen] at hClosed
      simp at hClosed
    | nil =>
      rw [hOpen] at hStack hAligned
      cases hCaptures : d.captures with
      | nil =>
        rw [hCaptures] at hLast
        cases hLast
      | cons first rest =>
        rw [hCaptures] at hAligned hLast
        cases rest with
        | nil =>
          cases hLast
          rw [← hStack.1]
          exact hAligned.1
        | cons second more => exact hAligned.2.elim

/-- A value that brings no token with it. -/
def IsTokenless (v : Value) : Prop := ∀ s, v = .text s → Clean s.toList

/-- Whatever a step makes of a draft, every place stays with the block that it belongs to. -/
theorem onward_of_change (h : Placed d) (hChange : Draft.Change IsBlank IsTokenless d d') :
    Onward d d' := by
  cases hChange with
  | stay => exact Onward.refl h
  | mark i => exact h.markExtended i
  | reopen hFind mode => exact h.reopen (lt_of_find? h hFind) mode
  | declare hNew _ mode => exact h.openNew hNew mode
  | write hClean hCaptures =>
    exact h.write (fun s hText => holds_of_clean (hClean s hText)) hCaptures
  | drop hStack hCaptures =>
    have hStacked := h.stack
    rw [hStack] at hStacked
    refine ⟨⟨h.outline, hStacked.2, ?_⟩, Extends.refl _⟩
    rw [hCaptures]
    exact aligned_nil _ _
  | pop hStack hCaptures =>
    have hStacked := h.stack
    have hAligned := h.captures
    rw [hStack] at hStacked
    rw [hStack, hCaptures] at hAligned
    exact ⟨⟨h.outline, hStacked.2, hAligned.2⟩, Extends.refl _⟩
  | merge hStack hCaptures hRead => exact h.close hStack hCaptures hRead
  | token hStack hCaptures hRead hBlock hFirst =>
    have hMerged := h.close hStack hCaptures hRead
    exact hMerged.trans (hMerged.placed.write (h.mayWrite_token hStack hBlock hFirst) rfl)
  | @finish _ captured hClosed hLast hRead =>
    have hCaptured := (holds_of_getLast? h hClosed hLast).read hRead
    have hExtends := extends_merge d.outline Outline.root captured
    exact ⟨⟨h.outline.merge hCaptured, h.stack.extend hExtends, h.captures.extend hExtends⟩,
      hExtends⟩

theorem keepsPlaced_of_change {α : Type} {x : DraftM α}
    (h : ∀ d, Draft.Change IsBlank IsTokenless d (x.run d).2) : KeepsPlaced x :=
  fun d hPlaced => ends_iff_snd.mpr (onward_of_change hPlaced (h d))

theorem keepsPlaced_markExtended (i : Nat) : KeepsPlaced (Draft.markExtended i) :=
  keepsPlaced_of_change fun _ => .mark i

theorem keepsPlaced_openBlock (name : Value) (mode : ApplyMode) :
    KeepsPlaced (Draft.openBlock name mode) :=
  keepsPlaced_of_change fun _ => Draft.change_openBlock mode (isBlank_plain _ name)

theorem keepsPlaced_addBlock {b : Block} (hNew : IsBlank b) (mode : ApplyMode) :
    KeepsPlaced (Draft.addBlock b mode) :=
  keepsPlaced_of_change fun _ => Draft.change_addBlock mode hNew

theorem keepsPlaced_write {v : Value} (hClean : IsTokenless v) : KeepsPlaced (Draft.write v) :=
  keepsPlaced_of_change fun _ => Draft.change_write hClean

theorem keepsPlaced_close : KeepsPlaced Draft.close :=
  keepsPlaced_of_change fun _ => Draft.change_close

theorem keepsPlaced_finish : KeepsPlaced Draft.finish :=
  keepsPlaced_of_change fun _ => Draft.change_finish

end Steps

end PageBlocks.Filling
