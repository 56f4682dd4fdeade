import PageBlocks.Block.Rendering
import PageBlocks.Page.Draft
import PageBlocks.Proofs.Deferral.Layout
import PageBlocks.Proofs.Drafts
import PageBlocks.Proofs.Substitution

/-!
# Drafts of laid out texts

If all texts that a draft holds are laid out, with or without tags, they stay so whatever its body
does next, a step that fails included, as long as what it writes is laid out in the same way. The
output of a block is then laid out, too, and rendering it leaves the caches alone if no block is
cacheable.
-/

set_option autoImplicit false

namespace PageBlocks.Deferral

open PageBlocks.Cache PageBlocks.Running

/-! ## Blocks -/

/-- A block with laid out content, which does nothing with it but escape it. -/
structure BlockLaid (tags : Bool) (b : Block) : Prop where
  content : Laid tags b.content.toList
  id : Clean b.id.toList
  kind : b.kind ≠ .cacheable
  transform : ∀ t, b.transform = some t → t = .escape

/-- An outline of blocks with laid out content. -/
def OutlineLaid (tags : Bool) (o : Outline) : Prop := ∀ b ∈ o.blocks, BlockLaid tags b

theorem clean_block (owner : String) (name : Value) : Clean (Identity.block owner name).toList :=
  clean_id (Token.isId_digest _)

theorem blockLaid_plain (tags : Bool) (owner : String) (name : Value) :
    BlockLaid tags (Block.plain owner name) :=
  ⟨.nil, clean_block owner name, nofun, nofun⟩

theorem blockLaid_declare {tags : Bool} {owner : String} {name lifetime : Value} {b : Block}
    (h : Block.declare owner name .markup lifetime (some .escape) = .ok b) : BlockLaid tags b := by
  cases h
  exact ⟨.nil, clean_block owner name, nofun, fun _ h => (Option.some.inj h).symm⟩

theorem BlockLaid.mono {tags more : Bool} {b : Block} (h : BlockLaid tags b)
    (hMore : tags = true → more = true) : BlockLaid more b :=
  ⟨h.content.mono hMore, h.id, h.kind, h.transform⟩

theorem BlockLaid.merge {tags : Bool} {b : Block} {captured : String} (h : BlockLaid tags b)
    (hCaptured : Laid tags captured.toList) : BlockLaid tags (b.merge captured) := by
  refine ⟨?_, h.id, h.kind, h.transform⟩
  have hMode : ∀ mode : ApplyMode, Laid tags (mode.apply b.content captured).toList := by
    intro mode
    cases mode with
    | replace => exact hCaptured
    | prepend =>
      rw [ApplyMode.apply, String.toList_append]
      exact hCaptured.append h.content
    | append =>
      rw [ApplyMode.apply, String.toList_append]
      exact h.content.append hCaptured
  exact hMode b.mode

theorem BlockLaid.token {tags : Bool} {b : Block} (h : BlockLaid tags b) :
    Laid tags b.token.toList := by
  rw [Block.token, String.toList_ofList]
  exact laid_ofId h.id

theorem outlineLaid_start (tags : Bool) (owner : String) :
    OutlineLaid tags (Outline.start owner) := by
  intro b hMem
  rw [Outline.start, List.mem_singleton] at hMem
  exact hMem ▸ blockLaid_plain tags owner _

namespace OutlineLaid

variable {tags : Bool} {o : Outline}

theorem mono {more : Bool} (h : OutlineLaid tags o) (hMore : tags = true → more = true) :
    OutlineLaid more o :=
  fun b hMem => (h b hMem).mono hMore

theorem block (h : OutlineLaid tags o) {i : Nat} {b : Block} (hBlock : o.block? i = some b) :
    BlockLaid tags b :=
  h b (Outline.mem_of_block?_eq_some hBlock)

theorem addChild (h : OutlineLaid tags o) {b : Block} (parent : Nat) (hNew : BlockLaid tags b) :
    OutlineLaid tags (o.addChild parent b).2 :=
  Outline.forall_mem_addChild h hNew (fun _ _ hOld =>
    ⟨hOld.content, hOld.id, hOld.kind, hOld.transform⟩)
    (fun _ _ hOld => ⟨hOld.content, hOld.id, hOld.kind, hOld.transform⟩)

end OutlineLaid

/-! ## Steps of drafts -/

/-- A captured text is laid out; a spoiled capture has no text. -/
def CaptureLaid (tags : Bool) (capture : Capture) : Prop :=
  ∀ s, capture = .text s → Laid tags s.toList

/-- All texts of a draft are laid out. -/
structure DraftLaid (tags : Bool) (d : Draft) : Prop where
  outline : OutlineLaid tags d.outline
  captures : ∀ capture ∈ d.captures, CaptureLaid tags capture

theorem captureLaid_empty (tags : Bool) : CaptureLaid tags Capture.empty := by
  intro s h
  cases h
  exact .nil

/-- A written value is laid out if it is a text; other values spoil the capture. -/
def WrittenLaid (tags : Bool) (v : Value) : Prop := ∀ s, v = .text s → Laid tags s.toList

theorem CaptureLaid.add {tags : Bool} {capture : Capture} {v : Value}
    (h : CaptureLaid tags capture) (hWritten : WrittenLaid tags v) :
    CaptureLaid tags (capture.add v) := by
  cases capture with
  | spoiled =>
    intro s hSpoiled
    cases hSpoiled
  | text t =>
    cases v with
    | text u =>
      intro s hText
      cases hText
      rw [String.toList_append]
      exact (h t rfl).append (hWritten u rfl)
    | _ =>
      intro s hSpoiled
      cases hSpoiled

theorem CaptureLaid.read {tags : Bool} {capture : Capture} {captured : String}
    (h : CaptureLaid tags capture) (hRead : capture.read = .ok captured) :
    Laid tags captured.toList := by
  cases capture with
  | text s =>
    cases hRead
    exact h captured rfl
  | spoiled => cases hRead

section Steps

variable {tags : Bool} {d d' : Draft}

theorem outlineLaid_update {o : Outline} (h : OutlineLaid tags o) (i : Nat) {f : Block → Block}
    (hSame : ∀ b, (f b).content = b.content ∧ (f b).id = b.id ∧ (f b).kind = b.kind
      ∧ (f b).transform = b.transform) : OutlineLaid tags (o.update i f) := by
  refine Outline.forall_mem_update h fun b hOld => ?_
  obtain ⟨hContent, hId, hKind, hTransform⟩ := hSame b
  exact ⟨hContent ▸ hOld.content, hId ▸ hOld.id, hKind ▸ hOld.kind, hTransform ▸ hOld.transform⟩

theorem outlineLaid_merge {o : Outline} (h : OutlineLaid tags o) (i : Nat) {captured : String}
    (hCaptured : Laid tags captured.toList) :
    OutlineLaid tags (o.update i fun b => b.merge captured) :=
  Outline.forall_mem_update h fun _ hOld => hOld.merge hCaptured

/-- Whatever a step makes of a draft, its texts stay laid out. -/
theorem DraftLaid.change (h : DraftLaid tags d)
    (hChange : Draft.Change (BlockLaid tags) (WrittenLaid tags) d d') : DraftLaid tags d' := by
  have hOpened : ∀ capture ∈ Capture.empty :: d.captures, CaptureLaid tags capture :=
    List.forall_mem_cons.mpr ⟨captureLaid_empty tags, h.captures⟩
  have hSplit : ∀ {capture rest}, d.captures = capture :: rest →
      CaptureLaid tags capture ∧ ∀ other ∈ rest, CaptureLaid tags other :=
    fun hCaptures => List.forall_mem_cons.mp (hCaptures ▸ h.captures)
  cases hChange with
  | stay => exact h
  | mark i => exact ⟨outlineLaid_update h.outline i fun _ => ⟨rfl, rfl, rfl, rfl⟩, h.captures⟩
  | reopen _ mode =>
    refine ⟨outlineLaid_update (outlineLaid_update h.outline _ ?_) _ ?_, hOpened⟩
    · exact fun _ => ⟨rfl, rfl, rfl, rfl⟩
    · exact fun _ => ⟨rfl, rfl, rfl, rfl⟩
  | declare hFits _ mode =>
    refine ⟨outlineLaid_update (h.outline.addChild _ hFits) _ ?_, hOpened⟩
    exact fun _ => ⟨rfl, rfl, rfl, rfl⟩
  | write hWritten hCaptures =>
    obtain ⟨hCapture, hRest⟩ := hSplit hCaptures
    exact ⟨h.outline, List.forall_mem_cons.mpr ⟨hCapture.add hWritten, hRest⟩⟩
  | drop _ _ => exact ⟨h.outline, h.captures⟩
  | pop _ hCaptures => exact ⟨h.outline, (hSplit hCaptures).2⟩
  | merge _ hCaptures hRead =>
    obtain ⟨hCapture, hRest⟩ := hSplit hCaptures
    exact ⟨outlineLaid_merge h.outline _ (hCapture.read hRead), hRest⟩
  | token _ hCaptures hRead hBlock _ =>
    obtain ⟨hCapture, hRest⟩ := hSplit hCaptures
    obtain ⟨hAround, hRest⟩ := List.forall_mem_cons.mp hRest
    refine ⟨outlineLaid_merge h.outline _ (hCapture.read hRead),
      List.forall_mem_cons.mpr ⟨hAround.add ?_, hRest⟩⟩
    intro s hText
    cases hText
    exact (h.outline.block hBlock).token
  | finish _ hLast hRead =>
    have hCapture := h.captures _ (List.mem_of_getLast? hLast)
    exact ⟨outlineLaid_merge h.outline _ (hCapture.read hRead), h.captures⟩

/-- A step keeps all texts laid out, also when it fails. -/
def KeepsLaid {α : Type} (tags : Bool) (x : DraftM α) : Prop :=
  ∀ d, DraftLaid tags d → Ends x d (fun _ => DraftLaid tags) (DraftLaid tags)

theorem keepsLaid_of_change {α : Type} {x : DraftM α}
    (h : ∀ d, Draft.Change (BlockLaid tags) (WrittenLaid tags) d (x.run d).2) : KeepsLaid tags x :=
  fun d hLaid => ends_iff_snd.mpr (hLaid.change (h d))

theorem keepsLaid_markExtended (i : Nat) : KeepsLaid tags (Draft.markExtended i) :=
  keepsLaid_of_change fun _ => .mark i

theorem keepsLaid_openBlock (name : Value) (mode : ApplyMode) :
    KeepsLaid tags (Draft.openBlock name mode) :=
  keepsLaid_of_change fun _ => Draft.change_openBlock mode (blockLaid_plain tags _ name)

theorem keepsLaid_addBlock {b : Block} (hNew : BlockLaid tags b) (mode : ApplyMode) :
    KeepsLaid tags (Draft.addBlock b mode) :=
  keepsLaid_of_change fun _ => Draft.change_addBlock mode hNew

theorem keepsLaid_write {v : Value} (hWritten : WrittenLaid tags v) :
    KeepsLaid tags (Draft.write v) :=
  keepsLaid_of_change fun _ => Draft.change_write hWritten

theorem keepsLaid_close : KeepsLaid tags Draft.close :=
  keepsLaid_of_change fun _ => Draft.change_close

theorem keepsLaid_finish : KeepsLaid tags Draft.finish :=
  keepsLaid_of_change fun _ => Draft.change_finish

theorem keepsLaid_resetCaptures : KeepsLaid tags Draft.resetCaptures := by
  intro d h
  refine ends_modify ⟨h.outline, fun capture hMem => ?_⟩
  rw [List.mem_singleton] at hMem
  exact hMem ▸ captureLaid_empty tags

end Steps

/-! ## Rendering -/

section Rendering

variable {tags : Bool} {o : Outline}

/-- What a block makes of its own text stays laid out. -/
theorem BlockLaid.shape {b : Block} {piece : List Char} (h : BlockLaid tags b)
    (hPiece : Laid tags piece) : Laid tags (b.shape piece).toList := by
  unfold Block.shape
  split
  · rename_i transform _ hTransform
    rw [h.transform transform hTransform]
    split
    · exact .nil
    · rw [Transform.apply, String.toList_ofList, String.toList_ofList]
      exact hPiece.escape
  · rw [String.toList_ofList]
    exact hPiece

theorem laid_inserted {rendered : Table String String} {id : List Char}
    (h : ∀ entry ∈ rendered, Laid tags entry.2.toList) (hId : Clean id) :
    Laid tags (Block.inserted rendered id).toList := by
  unfold Block.inserted
  split
  · rename_i output hOutput
    exact h _ (Table.mem_of_get?_eq_some hOutput)
  · rw [String.toList_ofList]
    exact laid_ofId hId

theorem BlockLaid.splice {b : Block} {rendered : Table String String} (h : BlockLaid tags b)
    (hRendered : ∀ entry ∈ rendered, Laid tags entry.2.toList) :
    Laid tags (b.splice rendered).toList := by
  obtain ⟨hFirst, hParts⟩ := laid_splitTokens h.content
  have hStep : ∀ (parts : List (List Char × List Char)) (done : String),
      (∀ part ∈ parts, Clean part.1 ∧ Laid tags part.2) → Laid tags done.toList →
        Laid tags (parts.foldl
          (fun done part => done ++ Block.inserted rendered part.1 ++ b.shape part.2)
            done).toList := by
    intro parts
    induction parts with
    | nil => exact fun done _ hDone => hDone
    | cons part rest ih =>
      intro done hAll hDone
      obtain ⟨hId, hText⟩ := hAll part List.mem_cons_self
      refine ih _ (fun other hMem => hAll other (List.mem_cons_of_mem _ hMem)) ?_
      rw [String.toList_append, String.toList_append]
      exact (hDone.append (laid_inserted hRendered hId)).append (h.shape hText)
  rw [b.splice_eq_foldl]
  exact hStep _ _ hParts (h.shape hFirst)

/-- A rendering of a laid out text that leaves the caches alone. -/
def RendersLaid (tags : Bool) (render : VaultM String) : Prop :=
  ∀ v, Ends render v (fun text v' => Laid tags text.toList ∧ v' = v) (· = v)

theorem rendersLaid_compose {render : Nat → VaultM String}
    (hRender : ∀ i, RendersLaid tags (render i)) {b : Block} (h : BlockLaid tags b) :
    RendersLaid tags (Outline.compose render o b) := by
  have hGathered : ∀ (js : List Nat) (v : Vault),
      Ends (js.filterMapM (Outline.childOutput render o)) v
        (fun rendered v' => (∀ entry ∈ rendered, Laid tags entry.2.toList) ∧ v' = v) (· = v) := by
    intro js v
    induction js with
    | nil => exact ends_pure ⟨fun _ hMem => absurd hMem List.not_mem_nil, rfl⟩
    | cons j js ih =>
      rw [List.filterMapM_cons]
      have hFirst : Ends (Outline.childOutput render o j) v
          (fun found v' => (∀ entry, found = some entry → Laid tags entry.2.toList) ∧ v' = v)
          (· = v) := by
        unfold Outline.childOutput
        split
        · refine Ends.bind (hRender j v) fun text v' hText => ?_
          refine ends_pure ⟨fun entry hEntry => ?_, hText.2⟩
          cases hEntry
          exact hText.1
        · refine ends_pure ⟨fun entry hEntry => ?_, rfl⟩
          cases hEntry
      refine Ends.bind hFirst fun found v' hFound => ?_
      obtain ⟨hEntry, rfl⟩ := hFound
      cases found with
      | none => exact ih
      | some entry =>
        refine Ends.bind ih fun rendered v₂ hRest => ends_pure ⟨fun other hMem => ?_, hRest.2⟩
        rcases List.mem_cons.mp hMem with rfl | hMem
        · exact hEntry _ rfl
        · exact hRest.1 other hMem
  intro v
  rw [Outline.compose_eq]
  refine Ends.bind (hGathered b.children v) fun rendered v' hAll => ?_
  refine ends_pure ⟨h.splice fun entry hMem => ?_, hAll.2⟩
  rcases Table.mem_or_mem_of_mem_merge hMem with hNone | hMem
  · exact absurd hNone List.not_mem_nil
  · exact hAll.1 entry hMem

theorem rendersLaid_renderFrom (h : OutlineLaid tags o) (memo : Option Memo) (depth i : Nat) :
    RendersLaid tags (Outline.renderFrom depth memo o i) := by
  induction depth generalizing i with
  | zero => exact fun v => ends_throw rfl
  | succ depth ih =>
    unfold Outline.renderFrom
    cases hBlock : o.block? i with
    | none => exact fun v => ends_pure ⟨.nil, rfl⟩
    | some b =>
      have hLaid := h.block hBlock
      -- no block is cacheable, so the caches are not asked
      simp only []
      split
      · rename_i _ hKind
        exact absurd hKind hLaid.kind
      · exact rendersLaid_compose ih hLaid

/-- The output of a block is laid out like the texts of its outline. -/
theorem rendersLaid_render (h : OutlineLaid tags o) (memo : Option Memo) (i : Nat) :
    RendersLaid tags (o.render memo i) :=
  rendersLaid_renderFrom h memo _ i

end Rendering

end PageBlocks.Deferral
