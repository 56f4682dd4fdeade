import PageBlocks.Block.Rendering
import PageBlocks.Proofs.Tokens

/-!
# Replacing tokens where they stand

A text can be cut at its tokens and put together again, or its tokens can be replaced in one pass
over the text. Both come to the same (`Token.substitute_eq`), so that blocks of every kind are
spliced in one way: each piece of their own text shaped, with what is inserted for each token
between the pieces (`Block.splice_eq_foldl`).
-/

set_option autoImplicit false

namespace PageBlocks

namespace Token

variable {shown? : List Char → Option (List Char)}

theorem substitute_nil : substitute shown? [] = [] := by
  rw [substitute]
  rfl

/-- Where no token starts, a character stays. -/
theorem substitute_cons_of_none {c : Char} {cs : List Char} (h : leading? (c :: cs) = none) :
    substitute shown? (c :: cs) = c :: substitute shown? cs := by
  rw [substitute]
  split
  · rename_i id rest hFound
    rw [h] at hFound
    cases hFound
  · rfl

/-- A token is replaced by what is shown for its identity, or stays. -/
theorem substitute_ofId {id : List Char} (cs : List Char) (hId : isId id = true) :
    substitute shown? (ofId id ++ cs)
      = (shown? id).getD (ofId id) ++ substitute shown? cs := by
  have hMatched : (ofId id ++ cs).take ((ofId id ++ cs).length - cs.length) = ofId id := by
    rw [List.length_append, Nat.add_sub_cancel]
    exact List.take_left
  rw [substitute]
  split
  · rename_i found rest hFound
    obtain ⟨rfl, rfl⟩ := Prod.mk.inj (Option.some.inj ((leading?_ofId cs hId).symm.trans hFound))
    rw [hMatched]
  · rename_i hNone
    rw [leading?_ofId cs hId] at hNone
    cases hNone

/-- Replacing the tokens of a text is cutting it at them and putting it together again with what is
shown in their places. -/
theorem substitute_eq (cs : List Char) :
    substitute shown? cs = (split cs).1
      ++ (split cs).2.flatMap fun part => (shown? part.1).getD (ofId part.1) ++ part.2 := by
  induction cs using split.induct with
  | case1 cs id rest hFound _ text more hSplit ih =>
    obtain ⟨hId, rfl⟩ := eq_append_of_leading? hFound
    rw [substitute_ofId rest hId, split_ofId rest hId, ih, List.nil_append, List.flatMap_cons,
      List.append_assoc]
  | case2 =>
    rw [substitute_nil, split_nil]
    rfl
  | case3 c rest hNone text more hSplit ih =>
    rw [substitute_cons_of_none hNone, split_cons_of_none hNone, ih, List.cons_append]

/-- Where nothing is shown for any token, the text stays. -/
theorem substitute_of_none (h : ∀ id, shown? id = none) (cs : List Char) :
    substitute shown? cs = cs := by
  simp only [substitute_eq, h, Option.getD_none]
  exact (cuts_split cs).whole

end Token

namespace Block

theorem foldl_append_eq {α : Type} (f g : α → String) (parts : List α) (done : String) :
    parts.foldl (fun done part => done ++ f part ++ g part) done
      = done ++ String.join (parts.map fun part => f part ++ g part) := by
  induction parts generalizing done with
  | nil => simp
  | cons part parts ih =>
    rw [List.foldl_cons, ih, List.map_cons, String.join_cons]
    simp only [String.append_assoc]

theorem shape_of_ne_markup {b : Block} (h : b.kind ≠ .markup) : b.shape = String.ofList := by
  funext piece
  rw [Block.shape]
  split
  · rename_i hKind _
    exact absurd hKind h
  · rfl

theorem toList_join_map {α : Type} (f : α → String) (parts : List α) :
    (String.join (parts.map f)).toList = parts.flatMap fun part => (f part).toList := by
  induction parts with
  | nil => rfl
  | cons part parts ih =>
    rw [List.map_cons, String.join_cons, String.toList_append, ih, List.flatMap_cons]

/-- What stands in the place of a token is what is shown for it. -/
theorem toList_inserted (rendered : Table String String) (id : List Char) :
    (inserted rendered id).toList
      = ((rendered.get? (String.ofList id)).map String.toList).getD (Token.ofId id) := by
  unfold inserted
  cases rendered.get? (String.ofList id) with
  | some output => rfl
  | none => exact String.toList_ofList

/-- In a block that shapes nothing, the pieces are the text that tokens are replaced in. -/
theorem foldl_ofList_eq (rendered : Table String String) (cs : List Char) :
    (Token.split cs).2.foldl
        (fun done part => done ++ inserted rendered part.1 ++ String.ofList part.2)
        (String.ofList (Token.split cs).1)
      = String.ofList (Token.substitute
          (fun id => (rendered.get? (String.ofList id)).map String.toList) cs) := by
  rw [foldl_append_eq]
  apply String.toList_inj.mp
  rw [String.toList_append, toList_join_map, String.toList_ofList, String.toList_ofList,
    Token.substitute_eq]
  simp only [String.toList_append, toList_inserted, String.toList_ofList]

/-- Blocks of every kind are spliced by cutting their content at its tokens. -/
theorem splice_eq_foldl (b : Block) (rendered : Table String String) :
    b.splice rendered
      = (Token.split b.content.toList).2.foldl
          (fun done part => done ++ inserted rendered part.1 ++ b.shape part.2)
          (b.shape (Token.split b.content.toList).1) := by
  unfold splice
  split
  · rfl
  · rename_i hKind
    rw [shape_of_ne_markup hKind, foldl_ofList_eq]
    split
    · rename_i hEmpty
      -- without children, no token of the text stands for anything
      obtain rfl : rendered = [] := List.isEmpty_iff.mp hEmpty
      simp only [Table.get?_nil, Option.map_none]
      rw [Token.substitute_of_none fun _ => rfl, String.ofList_toList]
    · rfl

end Block

end PageBlocks
