import PageBlocks.Proofs.Markup.Transforms
import PageBlocks.Proofs.Substitution
import PageBlocks.Proofs.Tables

/-!
# Texts with places to fill

The content of a block has a place for each of its children, marked by the token of the child, and
is free of STX otherwise (`Holds`). Cutting such a text at its tokens finds these places and nothing
else (`Holds.split`), so no STX is left once all of them are filled (`clean_splice`).
-/

set_option autoImplicit false

namespace PageBlocks.Filling

open PageBlocks.Deferral

/-- A text without STX but for complete tokens, which are those of some blocks. -/
inductive Holds (own : List Char → Prop) : List Char → Prop where
  | nil : Holds own []
  | char {c : Char} {cs : List Char} (hChar : c ≠ '\x02') (h : Holds own cs) : Holds own (c :: cs)
  | token {id cs : List Char} (hId : Token.isId id = true) (hOwn : own id) (h : Holds own cs) :
      Holds own (Token.ofId id ++ cs)

section Holds

variable {own more : List Char → Prop} {cs ds : List Char}

theorem Holds.mono (h : Holds own cs) (hMore : ∀ id, own id → more id) : Holds more cs := by
  induction h with
  | nil => exact .nil
  | char hChar _ ih => exact .char hChar ih
  | token hId hOwn _ ih => exact .token hId (hMore _ hOwn) ih

theorem Holds.append (h : Holds own cs) (h' : Holds own ds) : Holds own (cs ++ ds) := by
  induction h with
  | nil => exact h'
  | char hChar _ ih => exact .char hChar ih
  | token hId hOwn _ ih =>
    rw [List.append_assoc]
    exact .token hId hOwn ih

theorem holds_of_clean (h : Clean cs) : Holds own cs := by
  induction cs with
  | nil => exact .nil
  | cons c cs ih =>
    obtain ⟨hChar, hRest⟩ := clean_cons.mp h
    exact .char hChar (ih hRest)

theorem holds_ofId {id : List Char} (hId : Token.isId id = true) (hOwn : own id) :
    Holds own (Token.ofId id) := by
  have hToken := Holds.token hId hOwn .nil
  rwa [List.append_nil] at hToken

/-- The parts of such a text have no STX, and the tokens between them are the places. -/
theorem Holds.split (h : Holds own cs) : Clean (Token.split cs).1
    ∧ ∀ part ∈ (Token.split cs).2, own part.1 ∧ Clean part.2 := by
  induction h with
  | nil =>
    rw [Token.split_nil]
    exact ⟨clean_nil, fun _ hMem => absurd hMem List.not_mem_nil⟩
  | char hChar _ ih =>
    rw [Token.split_cons_of_ne _ hChar]
    exact ⟨clean_cons.mpr ⟨hChar, ih.1⟩, ih.2⟩
  | token hId hOwn _ ih =>
    rw [Token.split_ofId _ hId]
    exact ⟨clean_nil, List.forall_mem_cons.mpr ⟨⟨hOwn, ih.1⟩, ih.2⟩⟩

/-! ## Filling the places -/

/-- Whatever a block does to a piece of its own text, it makes no STX. -/
theorem clean_shape (b : Block) {piece : List Char} (h : Clean piece) :
    Clean (b.shape piece).toList := by
  unfold Block.shape
  split
  · split
    · exact clean_nil
    · refine Transform.clean_apply _ ?_
      rw [String.toList_ofList]
      exact h
  · rw [String.toList_ofList]
    exact h

/-- A content whose places are all filled with texts without STX has none. -/
theorem clean_splice {b : Block} {rendered : Table String String} (h : Holds own b.content.toList)
    (hRendered : ∀ entry ∈ rendered, Clean entry.2.toList)
    (hOwn : ∀ id, own id → ∃ output, rendered.get? (String.ofList id) = some output) :
    Clean (b.splice rendered).toList := by
  obtain ⟨hFirst, hParts⟩ := h.split
  have hInserted : ∀ id, own id → Clean (Block.inserted rendered id).toList := by
    intro id hId
    obtain ⟨output, hOutput⟩ := hOwn id hId
    rw [Block.inserted, hOutput]
    exact hRendered _ (Table.mem_of_get?_eq_some hOutput)
  -- the text that is done so far stays without STX, part by part
  have hStep : ∀ (parts : List (List Char × List Char)) (done : String),
      (∀ part ∈ parts, own part.1 ∧ Clean part.2) → Clean done.toList →
        Clean (parts.foldl (fun done part =>
          done ++ Block.inserted rendered part.1 ++ b.shape part.2) done).toList := by
    intro parts
    induction parts with
    | nil => exact fun done _ hDone => hDone
    | cons part rest ih =>
      intro done hAll hDone
      obtain ⟨⟨hPlace, hText⟩, hRest⟩ := List.forall_mem_cons.mp hAll
      refine ih _ hRest ?_
      rw [String.toList_append, String.toList_append]
      exact clean_append.mpr ⟨clean_append.mpr ⟨hDone, hInserted _ hPlace⟩, clean_shape b hText⟩
  rw [b.splice_eq_foldl]
  exact hStep _ _ hParts (clean_shape b hFirst)

end Holds

end PageBlocks.Filling
