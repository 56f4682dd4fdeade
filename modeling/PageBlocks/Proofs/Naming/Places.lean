import PageBlocks.Proofs.KeyTexts
import PageBlocks.Proofs.Naming.Outlines
import PageBlocks.Proofs.Substitution

/-!
# Places and the blocks that fill them

A token names its block by the digest of a text, the identity of the owner with the printed name
behind it. Owners have identities of one length, so the texts of two blocks are the same if and only
if the blocks have one owner and their names print alike (`preimage_eq_iff`). If the digest tells
the texts of the blocks of an outline apart, a block is composed with outputs of children in the
places of blocks with the same texts only (`Distinct.fillsPlaces`). So where no two blocks have one
text, there is the output of each child in its own place and no output in the place of any other
block.
-/

set_option autoImplicit false

namespace PageBlocks

open PageBlocks.Cache PageBlocks.Running

/-- The content of a block with its own text shaped, and something in the place of each token. -/
def Block.filled (b : Block) (fill : List Char → String) : String :=
  (Token.split b.content.toList).2.foldl (fun done part => done ++ fill part.1 ++ b.shape part.2)
    (b.shape (Token.split b.content.toList).1)

namespace Naming

/-- The text whose digest is the identity of a block. -/
def preimage (b : Block) : List Char := Identity.blockText b.owner b.name

/-- An outline whose blocks have the identities that their owners and names give them, and names no
two of which are equal. -/
structure Distinct (o : Outline) : Prop where
  signed : ∀ b ∈ o.blocks, Signed b
  unequal : ∀ i j a b, i < j → o.block? i = some a → o.block? j = some b →
    (a.name == b.name) = false

/-- Different blocks have different texts. -/
def TextsApart (o : Outline) : Prop :=
  ∀ i j a b, i < j → o.block? i = some a → o.block? j = some b → preimage a ≠ preimage b

/-- The digest has no collision among the texts of the blocks. -/
def DigestsApart (o : Outline) : Prop :=
  ∀ a ∈ o.blocks, ∀ b ∈ o.blocks,
    Identity.digest (preimage a) = Identity.digest (preimage b) → preimage a = preimage b

/-- What a block is composed of: in the place of a block the output of a child with the text of that
block, and the token as it is where there is none. -/
def FillsPlaces (o : Outline) : Prop :=
  ∀ (render : Nat → VaultM String) (b : Block) (u u' : Vault) (output : String),
    (Outline.compose render o b).run u = (.ok output, u') →
    ∃ fill : List Char → String, output = b.filled fill
      ∧ (∀ i c, o.block? i = some c →
        (∃ j ∈ b.children, ∃ d, o.block? j = some d ∧ preimage d = preimage c
          ∧ ∃ t t', (render j).run t = (.ok (fill c.id.toList), t'))
        ∨ (∀ j ∈ b.children, ∀ d, o.block? j = some d → preimage d ≠ preimage c)
          ∧ fill c.id.toList = c.token)
      ∧ ∀ id, (∀ i c, o.block? i = some c → c.id.toList ≠ id) →
        fill id = String.ofList (Token.ofId id)

/-- The same if no two blocks have one text: in the place of a child there is its own output, and in
the place of any other block its token. -/
def FillsOwnPlaces (o : Outline) : Prop :=
  ∀ (render : Nat → VaultM String) (b : Block) (u u' : Vault) (output : String),
    (Outline.compose render o b).run u = (.ok output, u') →
    ∃ fill : List Char → String, output = b.filled fill
      ∧ ∀ i c, o.block? i = some c →
        (i ∈ b.children → ∃ t t', (render i).run t = (.ok (fill c.id.toList), t'))
        ∧ (i ∉ b.children → fill c.id.toList = c.token)

section Texts

variable {o : Outline} {a b : Block}

/-- The owner and the printed name are all that counts. -/
theorem preimage_eq_iff (ha : Signed a) (hb : Signed b) :
    preimage a = preimage b ↔ a.owner = b.owner ∧ a.name.print = b.name.print :=
  KeyTexts.Part.text_eq_iff ha.owner hb.owner (.block a.name) (.block b.name)

theorem Named.distinct (h : Named o) : Distinct o := by
  refine ⟨h.signed, fun i j a b hLt ha hb => ?_⟩
  obtain ⟨hi, rfl⟩ := List.getElem?_eq_some_iff.mp ha
  obtain ⟨hj, rfl⟩ := List.getElem?_eq_some_iff.mp hb
  have hUnequal := List.pairwise_iff_getElem.mp h.unequal i j
    (by rwa [List.length_map]) (by rwa [List.length_map]) hLt
  rwa [List.getElem_map, List.getElem_map] at hUnequal

/-- Blocks that are told apart later on were so before. -/
theorem Distinct.of_grows {o' : Outline} (h : Distinct o') (hGrows : Coherence.Grows o o') :
    Distinct o := by
  constructor
  case signed =>
    intro b hMem
    obtain ⟨i, hBlock⟩ := List.mem_iff_getElem?.mp hMem
    obtain ⟨b', hBlock', hKeeps⟩ := hGrows.kept i b hBlock
    have hSigned := h.signed b' (Outline.mem_of_block?_eq_some hBlock')
    refine ⟨?_, ?_⟩
    · rw [← hKeeps.owner]
      exact hSigned.owner
    · rw [← hKeeps.id, ← hKeeps.owner, ← hKeeps.name]
      exact hSigned.id
  case unequal =>
    intro i j a b hLt ha hb
    obtain ⟨a', ha', hKeepsA⟩ := hGrows.kept i a ha
    obtain ⟨b', hb', hKeepsB⟩ := hGrows.kept j b hb
    rw [← hKeepsA.name, ← hKeepsB.name]
    exact h.unequal i j a' b' hLt ha' hb'

theorem Distinct.preimage_eq_iff (h : Distinct o) {i j : Nat} (ha : o.block? i = some a)
    (hb : o.block? j = some b) :
    preimage a = preimage b ↔ a.owner = b.owner ∧ a.name.print = b.name.print :=
  Naming.preimage_eq_iff (h.signed a (Outline.mem_of_block?_eq_some ha))
    (h.signed b (Outline.mem_of_block?_eq_some hb))

/-- Texts that are unequal print differently. -/
theorem Distinct.textsApart (h : Distinct o) (hTexts : Coherence.TextNamed o) : TextsApart o := by
  intro i j a b hLt ha hb hSame
  have hUnequal := h.unequal i j a b hLt ha hb
  obtain ⟨s, hs⟩ := hTexts i a ha
  obtain ⟨t, ht⟩ := hTexts j b hb
  have hPrints := ((h.preimage_eq_iff ha hb).mp hSame).2
  rw [hs, ht] at hPrints hUnequal
  have hEqual : s = t := hPrints
  rw [hEqual, Table.beq_text_iff.mpr rfl] at hUnequal
  cases hUnequal

theorem TextsApart.eq (h : TextsApart o) {i j : Nat} (ha : o.block? i = some a)
    (hb : o.block? j = some b) (hText : preimage a = preimage b) : i = j := by
  rcases Nat.lt_trichotomy i j with hLt | rfl | hGt
  · exact absurd hText (h i j a b hLt ha hb)
  · rfl
  · exact absurd hText.symm (h j i b a hGt hb ha)

/-- Blocks with one identity have one text. -/
theorem Distinct.preimage_eq (h : Distinct o) (hDigests : DigestsApart o) (ha : a ∈ o.blocks)
    (hb : b ∈ o.blocks) (hSame : a.id = b.id) : preimage a = preimage b :=
  hDigests a ha b hb ((h.signed a ha).id.symm.trans (hSame.trans (h.signed b hb).id))

/-- Blocks with one text have one identity. -/
theorem Distinct.id_eq (h : Distinct o) (ha : a ∈ o.blocks) (hb : b ∈ o.blocks)
    (hText : preimage a = preimage b) : a.id = b.id :=
  (h.signed a ha).id.trans ((congrArg Identity.digest hText).trans (h.signed b hb).id.symm)

end Texts

/-! ## Outputs of children -/

section Outputs

variable {o : Outline} {render : Nat → VaultM String} {children : List Nat}
  {rendered : List (String × String)} {u u' : Vault}

/-- The children are rendered one after the other. -/
theorem childOutputs_cons {i : Nat} {rest : List Nat}
    (h : ((i :: rest).filterMapM (Outline.childOutput render o)).run u = (.ok rendered, u')) :
    (o.block? i = none
      ∧ (rest.filterMapM (Outline.childOutput render o)).run u = (.ok rendered, u'))
    ∨ ∃ c text v more, o.block? i = some c ∧ (render i).run u = (.ok text, v)
      ∧ (rest.filterMapM (Outline.childOutput render o)).run v = (.ok more, u')
      ∧ rendered = (c.id, text) :: more := by
  rw [List.filterMapM_cons] at h
  obtain ⟨found, v, hFound, h⟩ := run_bind_eq_ok h
  unfold Outline.childOutput at hFound
  cases hBlock : o.block? i with
  | none =>
    rw [hBlock] at hFound
    cases hFound
    exact .inl ⟨rfl, h⟩
  | some c =>
    rw [hBlock] at hFound
    obtain ⟨text, v', hText, hFound⟩ := run_bind_eq_ok hFound
    cases hFound
    obtain ⟨more, v'', hMore, h⟩ := run_bind_eq_ok h
    cases h
    exact .inr ⟨c, text, v, more, rfl, hText, hMore, rfl⟩

/-- Every output is that of a child, under the identity of that child. -/
theorem exists_child_of_mem
    (h : (children.filterMapM (Outline.childOutput render o)).run u = (.ok rendered, u')) :
    ∀ entry ∈ rendered, ∃ i ∈ children, ∃ c, o.block? i = some c ∧ entry.1 = c.id
      ∧ ∃ t t', (render i).run t = (.ok entry.2, t') := by
  induction children generalizing rendered u with
  | nil =>
    cases h
    exact nofun
  | cons i rest ih =>
    rcases childOutputs_cons h with ⟨-, hRest⟩ | ⟨c, text, v, more, hBlock, hText, hMore, rfl⟩
    · intro entry hMem
      obtain ⟨j, hChild, hEntry⟩ := ih hRest entry hMem
      exact ⟨j, List.mem_cons_of_mem _ hChild, hEntry⟩
    · intro entry hMem
      rcases List.mem_cons.mp hMem with rfl | hMem
      · exact ⟨i, List.mem_cons_self, c, hBlock, rfl, u, v, hText⟩
      · obtain ⟨j, hChild, hEntry⟩ := ih hMore entry hMem
        exact ⟨j, List.mem_cons_of_mem _ hChild, hEntry⟩

/-- Every child that is there has an output. -/
theorem exists_mem_of_child
    (h : (children.filterMapM (Outline.childOutput render o)).run u = (.ok rendered, u')) {i : Nat}
    {c : Block} (hChild : i ∈ children) (hBlock : o.block? i = some c) :
    ∃ text, (c.id, text) ∈ rendered := by
  -- the caches change from child to child, so the induction is for all of them
  induction children generalizing rendered u with
  | nil => cases hChild
  | cons j rest ih =>
    rcases childOutputs_cons h with ⟨hNone, hRest⟩ | ⟨d, text, v, more, hFound, -, hMore, rfl⟩
    · rcases List.mem_cons.mp hChild with rfl | hLater
      · rw [hBlock] at hNone
        cases hNone
      · exact ih hRest hLater
    · rcases List.mem_cons.mp hChild with rfl | hLater
      · rw [hBlock] at hFound
        cases hFound
        exact ⟨text, List.mem_cons_self⟩
      · obtain ⟨found, hMem⟩ := ih hMore hLater
        exact ⟨found, List.mem_cons_of_mem _ hMem⟩

/-- What is inserted for an identity is one of the outputs, or the token if none has it. -/
theorem inserted_cases (rendered : List (String × String)) (id : String) :
    (id, Block.inserted (Table.ofBindings rendered) id.toList) ∈ rendered
    ∨ (∀ text, (id, text) ∉ rendered)
      ∧ Block.inserted (Table.ofBindings rendered) id.toList
        = String.ofList (Token.ofId id.toList) := by
  unfold Block.inserted
  rw [String.ofList_toList]
  cases hFound : (Table.ofBindings rendered).get? id with
  | some text =>
    have hMem := Table.mem_of_get?_eq_some hFound
    exact .inl ((Table.mem_or_mem_of_mem_merge hMem).resolve_left List.not_mem_nil)
  | none =>
    refine .inr ⟨fun text hMem => ?_, rfl⟩
    obtain ⟨other, hOther⟩ := Table.exists_get?_merge (t := []) (.inr ⟨text, hMem⟩)
    rw [Table.ofBindings, hOther] at hFound
    cases hFound

end Outputs

/-- If the digest tells the texts of the blocks apart, an output gets into the places of its own
text only. -/
theorem Distinct.fillsPlaces {o : Outline} (h : Distinct o) (hDigests : DigestsApart o) :
    FillsPlaces o := by
  intro render b u u' output hRun
  rw [Outline.compose_eq] at hRun
  obtain ⟨rendered, v, hRendered, hRun⟩ := run_bind_eq_ok hRun
  cases hRun
  refine ⟨Block.inserted (Table.ofBindings rendered), Block.splice_eq_foldl b _, ?_, ?_⟩
  -- an output and a token meet by identity, and identities by the texts that they are digests of
  · intro i c hBlock
    have hMem := Outline.mem_of_block?_eq_some hBlock
    rcases inserted_cases rendered c.id with hOutput | ⟨hNone, hToken⟩
    · obtain ⟨j, hChild, d, hOther, hId, hRender⟩ := exists_child_of_mem hRendered _ hOutput
      have hText := h.preimage_eq hDigests hMem (Outline.mem_of_block?_eq_some hOther) hId
      exact .inl ⟨j, hChild, d, hOther, hText.symm, hRender⟩
    · refine .inr ⟨fun j hChild d hOther hText => ?_, hToken⟩
      obtain ⟨text, hOutput⟩ := exists_mem_of_child hRendered hChild hOther
      rw [h.id_eq (Outline.mem_of_block?_eq_some hOther) hMem hText] at hOutput
      exact hNone text hOutput
  · intro id hUnknown
    rcases inserted_cases rendered (String.ofList id) with hOutput | ⟨-, hToken⟩
    · obtain ⟨i, -, c, hBlock, hId, -⟩ := exists_child_of_mem hRendered _ hOutput
      refine absurd ?_ (hUnknown i c hBlock)
      rw [← hId, String.toList_ofList]
    · rwa [String.toList_ofList] at hToken

/-- If the texts of the blocks differ besides, it gets into the place of its own block only. -/
theorem FillsPlaces.own {o : Outline} (h : FillsPlaces o) (hTexts : TextsApart o) :
    FillsOwnPlaces o := by
  intro render b u u' output hRun
  obtain ⟨fill, hOutput, hPlaces, -⟩ := h render b u u' output hRun
  refine ⟨fill, hOutput, fun i c hBlock => ?_⟩
  rcases hPlaces i c hBlock with ⟨j, hChild, d, hOther, hText, hRender⟩ | ⟨hNone, hToken⟩
  · obtain rfl := hTexts.eq hOther hBlock hText
    exact ⟨fun _ => hRender, fun hOutside => absurd hChild hOutside⟩
  · exact ⟨fun hChild => absurd rfl (hNone i hChild c hBlock), fun _ => hToken⟩

end Naming

end PageBlocks
