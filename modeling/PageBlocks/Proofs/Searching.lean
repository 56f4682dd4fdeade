import PageBlocks.Text.Search

/-!
# Where words occur

The search for a word finds its first occurrence: it finds nothing exactly if the word does not
occur (`cut?_eq_none_iff`), and what stands before the place that it finds does not hold the word
(`not_infix_of_cut?`). The other way round, a text without the word in front of it is not enough for
an arbitrary word, which may begin in that text and end behind it. A word whose first character
stands nowhere else in it cannot (`cut?_append`).
-/

set_option autoImplicit false

namespace PageBlocks.Text

variable {word cs before behind : List Char}

theorem after?_eq_none_iff : after? word cs = none ↔ ¬ word <+: cs := by
  constructor
  · rintro hNone ⟨behind, rfl⟩
    rw [after?_append] at hNone
    cases hNone
  · intro hNot
    cases hAfter : after? word cs with
    | none => rfl
    | some behind => exact absurd ⟨behind, (eq_append_of_after? hAfter).symm⟩ hNot

/-- A word that occurs is found. -/
theorem cut?_eq_none_iff : cut? word cs = none ↔ ¬ word <:+: cs := by
  induction cs with
  | nil =>
    rw [cut?, Option.map_eq_none_iff, after?_eq_none_iff, List.prefix_nil, List.infix_nil]
  | cons c cs ih =>
    rw [List.infix_cons_iff, not_or, ← ih, ← after?_eq_none_iff, cut?]
    cases after? word (c :: cs) with
    | none => simp
    | some rest => simp

/-- What is found is the first occurrence. -/
theorem not_infix_of_cut? (hWord : word ≠ []) (h : cut? word cs = some (before, behind)) :
    ¬ word <:+: before := by
  induction cs generalizing before with
  | nil =>
    have hShape := eq_append_of_cut? h
    rw [List.append_assoc, List.nil_eq, List.append_eq_nil_iff] at hShape
    rw [hShape.1, List.infix_nil]
    exact hWord
  | cons c cs ih =>
    rw [cut?] at h
    cases hAfter : after? word (c :: cs) with
    | some rest =>
      rw [hAfter] at h
      cases h
      rw [List.infix_nil]
      exact hWord
    | none =>
      rw [hAfter] at h
      obtain ⟨⟨front, rest⟩, hRest, hSame⟩ := Option.map_eq_some_iff.mp h
      cases hSame
      rw [List.infix_cons_iff, not_or]
      refine ⟨fun hPrefix => after?_eq_none_iff.mp hAfter ?_, ih hRest⟩
      rw [eq_append_of_cut? hRest, List.append_assoc, ← List.cons_append]
      exact hPrefix.trans (List.prefix_append _ _)

theorem cut?_of_after? (h : after? word cs = some behind) : cut? word cs = some ([], behind) := by
  cases cs with
  | nil =>
    rw [cut?, h]
    rfl
  | cons c cs => rw [cut?, h]

/-- What stands behind an occurrence stands behind the first one. -/
theorem exists_cut? (word before behind : List Char) :
    ∃ front rest, cut? word (before ++ (word ++ behind)) = some (front, rest)
      ∧ behind <:+ rest := by
  induction before with
  | nil => exact ⟨[], behind, cut?_of_after? (after?_append word behind), List.suffix_rfl⟩
  | cons c before ih =>
    obtain ⟨front, rest, hCut, hSuffix⟩ := ih
    cases hAfter : after? word (c :: (before ++ (word ++ behind))) with
    | some other =>
      -- an earlier occurrence leaves at least as much behind it
      refine ⟨[], other, cut?_of_after? hAfter, ?_⟩
      have hShape := eq_append_of_after? hAfter
      have hLength := congrArg List.length hShape
      rw [List.length_cons, List.length_append, List.length_append, List.length_append] at hLength
      have hBehind : behind <:+ word ++ other := by
        rw [← hShape, ← List.cons_append, ← List.append_assoc]
        exact List.suffix_append _ _
      exact List.suffix_of_suffix_length_le hBehind (List.suffix_append word other) (by omega)
    | none =>
      refine ⟨c :: front, rest, ?_, hSuffix⟩
      rw [List.cons_append, cut?, hAfter, hCut]
      rfl

/-- A word without a character ends before its first occurrence. -/
theorem prefix_of_prefix_append {mark : Char} (hMark : mark ∉ word)
    (h : word <+: before ++ mark :: behind) : word <+: before := by
  rcases List.prefix_or_prefix_of_prefix h (List.prefix_append before (mark :: behind)) with
    hShort | ⟨more, rfl⟩
  · exact hShort
  · cases more with
    | nil => exact ⟨[], by simp⟩
    | cons c more =>
      obtain ⟨rest, hRest⟩ := h
      rw [List.append_assoc, List.append_cancel_left_eq, List.cons_append] at hRest
      cases hRest
      exact absurd (List.mem_append_right _ List.mem_cons_self) hMark

/-- A word whose first character stands nowhere else in it is found behind a text that does not
hold it. -/
theorem cut?_append {mark : Char} (hMark : mark ∉ word) (h : ¬ (mark :: word) <:+: before) :
    cut? (mark :: word) (before ++ (mark :: word ++ behind)) = some (before, behind) := by
  induction before with
  | nil => exact cut?_of_after? (after?_append (mark :: word) behind)
  | cons c before ih =>
    rw [List.infix_cons_iff, not_or] at h
    have hNone : after? (mark :: word) (c :: (before ++ (mark :: word ++ behind))) = none := by
      -- the word cannot begin here and end behind: its first character would stand in its rest
      refine after?_eq_none_iff.mpr fun hPrefix => h.1 ?_
      obtain ⟨hFirst, hRest⟩ := List.cons_prefix_cons.mp hPrefix
      exact List.cons_prefix_cons.mpr ⟨hFirst, prefix_of_prefix_append hMark hRest⟩
    rw [List.cons_append, cut?, hNone, ih h.2]
    rfl

end PageBlocks.Text
