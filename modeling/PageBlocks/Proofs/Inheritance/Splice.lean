import PageBlocks.Proofs.Inheritance.Sketch
import PageBlocks.Proofs.Substitution

/-!
# Splicing what pieces write

The content of a block is text: its own, and a token in the place of each child. If the text is
written from pieces that hold no STX, cutting it at its tokens finds exactly the holes of the pieces
again, so that splicing fills every hole with the output of the child that it is named for
(`splice_written`).
-/

set_option autoImplicit false

namespace PageBlocks.Inheritance

/-! ## Identities -/

theorem isId_idOf (blocks : Ledger) (name : String) :
    Token.isId (blocks.idOf name).toList = true :=
  Token.isId_digest _

/-! ## Written pieces -/

/-- Whether a piece writes no STX. -/
def Piece.IsClean : Piece → Prop
  | .text s => '\x02' ∉ s.toList
  | .hole _ => True

/-- The token that stands for an identity. -/
def tokenOf (id : String) : String := String.ofList (Token.ofId id.toList)

/-- The content of a block with the given pieces: a token stands in the place of each hole. -/
def Ledger.written (blocks : Ledger) (pieces : List Piece) : String :=
  fillWith (fun name => tokenOf (blocks.idOf name)) pieces

theorem fillWith_nil (shown : String → String) : fillWith shown [] = "" := rfl

theorem fillWith_cons (shown : String → String) (piece : Piece) (pieces : List Piece) :
    fillWith shown (piece :: pieces) = piece.fill shown ++ fillWith shown pieces := by
  simp [fillWith, String.join_cons]

theorem fillWith_append (shown : String → String) (pieces more : List Piece) :
    fillWith shown (pieces ++ more) = fillWith shown pieces ++ fillWith shown more := by
  induction pieces with
  | nil => simp [fillWith_nil]
  | cons piece pieces ih =>
    rw [List.cons_append, fillWith_cons, fillWith_cons, ih, String.append_assoc]

/-- Only what fills the holes of the pieces counts. -/
theorem fillWith_congr {shown other : String → String} {pieces : List Piece}
    (h : ∀ name, Piece.hole name ∈ pieces → shown name = other name) :
    fillWith shown pieces = fillWith other pieces := by
  induction pieces with
  | nil => rfl
  | cons piece pieces ih =>
    have hRest := ih fun name hMem => h name (List.mem_cons_of_mem _ hMem)
    rw [fillWith_cons, fillWith_cons, hRest]
    cases piece with
    | text s => rfl
    | hole name => exact congrArg (· ++ _) (h name List.mem_cons_self)

/-- What is written when text joins a block is what is written of the joined pieces. -/
theorem written_join (blocks : Ledger) (mode : ApplyMode) (old new : List Piece) :
    blocks.written (join mode old new) = mode.apply (blocks.written old) (blocks.written new) := by
  cases mode with
  | replace => rfl
  | prepend => exact fillWith_append _ _ _
  | append => exact fillWith_append _ _ _

/-! ## Splicing -/

/-- The parts of a cut text put together with a text in the place of each token. -/
def gather (shown : List Char → String)
    (parts : List Char × List (List Char × List Char)) : String :=
  String.ofList parts.1
    ++ String.join (parts.2.map fun part => shown part.1 ++ String.ofList part.2)

/-- A block that transforms nothing keeps its own text as it is. -/
theorem splice_eq_gather {b : Block} (h : b.transform = none) (rendered : Table String String) :
    b.splice rendered = gather (Block.inserted rendered) (Token.split b.content.toList) := by
  have hShape : ∀ piece, b.shape piece = String.ofList piece := by
    intro piece
    simp only [Block.shape, h]
    split
    · contradiction
    · rfl
  simp only [Block.splice_eq_foldl, hShape]
  exact Block.foldl_append_eq _ _ _ _

theorem gather_text {shown : List Char → String} {text : List Char} (cs : List Char)
    (h : '\x02' ∉ text) :
    gather shown (Token.split (text ++ cs))
      = String.ofList text ++ gather shown (Token.split cs) := by
  rw [Token.split_append_of_clean cs h]
  simp only [gather, String.ofList_append, String.append_assoc]

theorem gather_token {shown : List Char → String} {id : List Char} (cs : List Char)
    (hId : Token.isId id = true) :
    gather shown (Token.split (Token.ofId id ++ cs))
      = shown id ++ gather shown (Token.split cs) := by
  rw [Token.split_ofId cs hId]
  simp [gather, String.join_cons, String.append_assoc]

/-- Cutting what clean pieces write finds their holes. -/
theorem gather_written (blocks : Ledger) {shown : List Char → String} {pieces : List Piece}
    (hClean : ∀ piece ∈ pieces, piece.IsClean) :
    gather shown (Token.split (blocks.written pieces).toList)
      = fillWith (fun name => shown (blocks.idOf name).toList) pieces := by
  induction pieces with
  | nil =>
    have hEmpty : (blocks.written []).toList = [] := rfl
    rw [hEmpty, Token.split_nil]
    rfl
  | cons piece pieces ih =>
    have hRest := ih fun other hMem => hClean other (List.mem_cons_of_mem _ hMem)
    have hWritten : (blocks.written (piece :: pieces)).toList
        = (piece.fill fun name => tokenOf (blocks.idOf name)).toList
          ++ (blocks.written pieces).toList := by
      rw [Ledger.written, fillWith_cons, String.toList_append]
      rfl
    rw [hWritten, fillWith_cons]
    cases piece with
    | text s =>
      have hText : '\x02' ∉ s.toList := hClean _ List.mem_cons_self
      simp only [Piece.fill]
      rw [gather_text _ hText, String.ofList_toList, hRest]
    | hole name =>
      simp only [Piece.fill, tokenOf, String.toList_ofList]
      rw [gather_token _ (isId_idOf blocks name), hRest]

/-- A block whose content is written from clean pieces shows them with each hole filled by the
output of the child of that identity. -/
theorem splice_written {blocks : Ledger} {b : Block} {pieces : List Piece}
    {rendered : Table String String} {shown : String → String} (hTransform : b.transform = none)
    (hContent : b.content = blocks.written pieces) (hClean : ∀ piece ∈ pieces, piece.IsClean)
    (hShown : ∀ name, Piece.hole name ∈ pieces →
      rendered.get? (blocks.idOf name) = some (shown name)) :
    b.splice rendered = fillWith shown pieces := by
  rw [splice_eq_gather hTransform, hContent, gather_written blocks hClean]
  refine fillWith_congr fun name hMem => ?_
  simp only [Block.inserted, String.ofList_toList, hShown name hMem]

end PageBlocks.Inheritance
