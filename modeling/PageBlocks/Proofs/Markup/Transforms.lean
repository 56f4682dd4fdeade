import PageBlocks.Markup.Transform
import PageBlocks.Proofs.Deferral.Layout
import PageBlocks.Proofs.Markup.Inline

/-!
# Transforms bring in no STX

No transform makes an STX of a text without one (`clean_apply`). The reader of character references
is the one that could: it takes references to code points. But a reference to the code point of STX
stands for nothing.
-/

set_option autoImplicit false

namespace PageBlocks

open PageBlocks.Deferral PageBlocks.Text

namespace Markup

/-! ## Character references -/

namespace Entity

theorem ne_of_mem_windowsPage {n : Nat} (h : n < 32) :
    Char.ofNat (windowsPage.getD n (n + 0x80)) ≠ '\x02' := by
  have table : ∀ m : Fin 32, Char.ofNat (windowsPage.getD m.val (m.val + 0x80)) ≠ '\x02' := by
    decide
  exact table ⟨n, h⟩

/-- The code point of STX is no character. -/
theorem clean_ofCodePoint (n : Nat) : Clean (ofCodePoint n) := by
  unfold ofCodePoint
  split
  · decide
  · split
    · rename_i hPage
      have hOffset : n - 0x80 + 0x80 = n := by omega
      have hTable := ne_of_mem_windowsPage (n := n - 0x80) (by omega)
      rw [hOffset] at hTable
      exact clean_cons.mpr ⟨hTable, clean_nil⟩
    · split
      · decide
      · split
        · exact clean_nil
        · rename_i hReserved hNoncharacter
          refine clean_cons.mpr ⟨fun hSame => ?_, clean_nil⟩
          by_cases hValid : n.isValidChar
          · have hChar : Char.ofNat n = Char.ofNatAux n hValid := dif_pos hValid
            have hPoint : n = 2 := congrArg Char.toNat (hChar.symm.trans hSame)
            subst hPoint
            exact hNoncharacter (by decide)
          · have hNull : Char.ofNat n = '\x00' := dif_neg hValid
            cases congrArg Char.toNat (hNull.symm.trans hSame)

theorem clean_skipSemicolon {cs : List Char} (h : Clean cs) : Clean (skipSemicolon cs) := by
  unfold skipSemicolon
  split
  · exact (clean_cons.mp h).2
  · exact h

theorem clean_of_numeric? {base : Nat} {isDigit : Char → Bool} {cs shown rest : List Char}
    (h : Clean cs) (hFound : numeric? base isDigit cs = some (shown, rest)) :
    Clean shown ∧ Clean rest := by
  unfold numeric? at hFound
  dsimp only at hFound
  split at hFound
  · cases hFound
  · cases hFound
    exact ⟨clean_ofCodePoint _, clean_skipSemicolon (Light.clean_dropWhile h _)⟩

theorem clean_of_leading? {cs shown rest : List Char} (h : Clean cs)
    (hFound : leading? cs = some (shown, rest)) : Clean shown ∧ Clean rest := by
  unfold leading? at hFound
  split at hFound
  · exact clean_of_numeric? (clean_cons.mp (clean_cons.mp h).2).2 hFound
  · exact clean_of_numeric? (clean_cons.mp (clean_cons.mp h).2).2 hFound
  · exact clean_of_numeric? (clean_cons.mp h).2 hFound
  · obtain ⟨entry, hEntry, hAfter⟩ := List.exists_of_findSome?_eq_some hFound
    obtain ⟨more, hMore, hSame⟩ := Option.map_eq_some_iff.mp hAfter
    cases hSame
    have hNames : ∀ entry ∈ names, entry.2 ≠ '\x02' := by decide
    rw [eq_append_of_after? hMore, clean_append] at h
    exact ⟨clean_cons.mpr ⟨hNames entry hEntry, clean_nil⟩, clean_skipSemicolon h.2⟩

theorem clean_decodeFrom {fuel : Nat} {cs : List Char} (h : Clean cs) :
    Clean (decodeFrom fuel cs) := by
  induction fuel, cs using decodeFrom.induct with
  | case1 cs => exact h
  | case2 fuel => exact clean_nil
  | case3 fuel rest shown behind hFound ih =>
    obtain ⟨hShown, hBehind⟩ := clean_of_leading? (clean_cons.mp h).2 hFound
    rw [decodeFrom, if_pos rfl, hFound]
    exact clean_append.mpr ⟨hShown, ih hBehind⟩
  | case4 fuel rest hNone ih =>
    rw [decodeFrom, if_pos rfl, hNone]
    exact clean_cons.mpr ⟨by decide, ih (clean_cons.mp h).2⟩
  | case5 fuel c rest hChar ih =>
    rw [decodeFrom, if_neg hChar]
    exact clean_cons.mpr ⟨(clean_cons.mp h).1, ih (clean_cons.mp h).2⟩

end Entity

/-! ## Text without markup -/

theorem clean_of_withoutSpan? {opening closing cs rest : List Char} (h : Clean cs)
    (hFound : withoutSpan? opening closing cs = some rest) : Clean rest := by
  unfold withoutSpan? at hFound
  split at hFound
  · rename_i before behind hOpen
    obtain ⟨⟨inside, tail⟩, hClose, rfl⟩ := Option.map_eq_some_iff.mp hFound
    have hBefore := h
    rw [eq_append_of_cut? hOpen, clean_append, clean_append] at hBefore
    have hTail := Light.clean_drop h before.length
    rw [eq_append_of_cut? hClose, clean_append] at hTail
    exact clean_append.mpr ⟨hBefore.1.1, hTail.2⟩
  · cases hFound

theorem clean_withoutSpansFrom {opening closing cs : List Char} (fuel : Nat) (h : Clean cs) :
    Clean (withoutSpansFrom opening closing fuel cs) := by
  induction fuel generalizing cs with
  | zero => exact h
  | succ fuel ih =>
    rw [withoutSpansFrom]
    split
    · rename_i rest hFound
      exact ih (clean_of_withoutSpan? h hFound)
    · exact h

theorem areClean_wordsFrom {word cs : List Char} (hWord : Clean word) (h : Clean cs) :
    Light.AreClean (wordsFrom word cs) := by
  have hWhole : ∀ {read : List Char}, Clean read → Clean read.reverse := Light.clean_reverse.mpr
  induction cs generalizing word with
  | nil =>
    rw [wordsFrom]
    split
    · exact fun _ hMem => absurd hMem List.not_mem_nil
    · exact List.forall_mem_singleton.mpr (hWhole hWord)
  | cons c rest ih =>
    obtain ⟨hChar, hRest⟩ := clean_cons.mp h
    rw [wordsFrom]
    split
    · split
      · exact ih clean_nil hRest
      · exact List.forall_mem_cons.mpr ⟨hWhole hWord, ih clean_nil hRest⟩
    · exact ih (clean_cons.mpr ⟨hChar, hWord⟩) hRest

theorem clean_spaced {ws : List (List Char)} (h : Light.AreClean ws) : Clean (spaced ws) := by
  induction ws using spaced.induct with
  | case1 => exact clean_nil
  | case2 word => exact h word (by simp)
  | case3 word rest hRest ih =>
    obtain ⟨hWord, hMore⟩ := List.forall_mem_cons.mp h
    rw [spaced]
    · exact clean_append.mpr ⟨hWord, clean_cons.mpr ⟨by decide, ih hMore⟩⟩
    · exact hRest

theorem clean_plain {cs : List Char} (h : Clean cs) : Clean (plain cs) := by
  have hComments : Clean (withoutSpans "<!--".toList "-->".toList cs) :=
    clean_withoutSpansFrom _ h
  have hTags : Clean (withoutSpans ['<'] ['>'] (withoutSpans "<!--".toList "-->".toList cs)) :=
    clean_withoutSpansFrom _ hComments
  exact Entity.clean_decodeFrom (clean_spaced (areClean_wordsFrom clean_nil hTags))

end Markup

/-! ## Transforms -/

/-- No transform makes an STX of a text without one. -/
theorem Transform.clean_apply (t : Transform) {s : String} (h : Clean s.toList) :
    Clean (t.apply s).toList := by
  cases t with
  | escape =>
    rw [Transform.apply, String.toList_ofList]
    exact clean_escape h
  | plain =>
    rw [Transform.apply, String.toList_ofList]
    exact Markup.clean_plain h
  | light =>
    rw [Transform.apply, String.toList_ofList]
    exact Markup.Light.clean_render _
  | bracket =>
    rw [Transform.apply, String.toList_append, String.toList_append]
    exact clean_append.mpr ⟨clean_append.mpr ⟨by decide, h⟩, by decide⟩
  | twice =>
    rw [Transform.apply, String.toList_append]
    exact clean_append.mpr ⟨h, h⟩
  | drop => exact clean_nil
  | length =>
    rw [Transform.apply, Number.Decimal.text, String.toList_ofList]
    exact clean_ofInt _
  | keep => exact h

end PageBlocks
