import PageBlocks.Markup.Light
import PageBlocks.Proofs.Deferral.Values

/-!
# Light markup: lines and blocks

Light markup takes STX out of a text before it looks for anything in it, so the lines and the blocks
that it finds are free of STX whatever the text holds (`isClean_blocks`).
-/

set_option autoImplicit false

namespace PageBlocks.Markup.Light

open PageBlocks.Deferral PageBlocks.Text

/-! ## Lines -/

/-- Whether all parts of a text are free of STX. -/
def AreClean (parts : List (List Char)) : Prop := ∀ part ∈ parts, Clean part

/-- This is where STX goes, wherever the text comes from. -/
theorem clean_cleaned (cs : List Char) : Clean (cleaned cs) := by
  induction cs using cleaned.induct with
  | case1 => simp [cleaned, Clean]
  | case2 rest ih => simpa [cleaned, clean_cons] using ih
  | case3 rest hNext ih => simpa [cleaned, clean_cons] using ih
  | case4 c rest hNext hReturn hControl ih =>
    rw [cleaned, if_neg hReturn, if_pos hControl]
    · exact ih
    · exact hNext
  | case5 c rest hNext hReturn hControl ih =>
    rw [cleaned, if_neg hReturn, if_neg hControl]
    · exact clean_cons.mpr ⟨fun hSame => hControl (.inl hSame), ih⟩
    · exact hNext

theorem clean_untabbed {cs : List Char} (h : Clean cs) (column : Nat) :
    Clean (untabbed column cs) := by
  induction cs generalizing column with
  | nil => exact h
  | cons c cs ih =>
    obtain ⟨hChar, hRest⟩ := clean_cons.mp h
    simp only [untabbed]
    split
    · exact clean_append.mpr ⟨clean_replicate (by decide), ih hRest _⟩
    · exact clean_cons.mpr ⟨hChar, ih hRest _⟩

theorem areClean_splitOn {cs : List Char} (h : Clean cs) (mark : Char) :
    AreClean (splitOn mark cs) := by
  induction cs with
  | nil => simp [splitOn, AreClean, Clean]
  | cons c cs ih =>
    obtain ⟨hChar, hRest⟩ := clean_cons.mp h
    have hParts := ih hRest
    simp only [splitOn]
    split
    · exact List.forall_mem_cons.mpr ⟨clean_nil, hParts⟩
    · split
      · exact List.forall_mem_singleton.mpr (clean_cons.mpr ⟨hChar, clean_nil⟩)
      · rename_i part more hSplit
        rw [hSplit] at hParts
        obtain ⟨hPart, hMore⟩ := List.forall_mem_cons.mp hParts
        exact List.forall_mem_cons.mpr ⟨clean_cons.mpr ⟨hChar, hPart⟩, hMore⟩

theorem clean_joinWith {parts : List (List Char)} (h : AreClean parts) {mark : Char}
    (hMark : mark ≠ '\x02') : Clean (joinWith mark parts) := by
  induction parts using joinWith.induct with
  | case1 => exact clean_nil
  | case2 part => exact h part (by simp)
  | case3 part more hMore ih =>
    obtain ⟨hPart, hRest⟩ := List.forall_mem_cons.mp h
    simp only [joinWith]
    exact clean_append.mpr ⟨hPart, clean_cons.mpr ⟨hMark, ih hRest⟩⟩

theorem areClean_lines {cs : List Char} (h : Clean cs) : AreClean (lines cs) := areClean_splitOn h _

theorem clean_joined {parts : List (List Char)} (h : AreClean parts) : Clean (joined parts) :=
  clean_joinWith h (by decide)

theorem areClean_withoutSpaceLines {parts : List (List Char)} (h : AreClean parts) :
    AreClean (withoutSpaceLines parts) := by
  cases parts with
  | nil => exact h
  | cons first rest =>
    obtain ⟨hFirst, hRest⟩ := List.forall_mem_cons.mp h
    refine List.forall_mem_cons.mpr ⟨hFirst, fun part hMem => ?_⟩
    obtain ⟨line, hLine, rfl⟩ := List.mem_map.mp hMem
    split
    · exact clean_nil
    · exact hRest line hLine

theorem clean_reverse {cs : List Char} : Clean cs.reverse ↔ Clean cs := by
  simp [Clean]

theorem areClean_partsFrom {part cs : List Char} (hPart : Clean part) (h : Clean cs) :
    AreClean (partsFrom part cs) := by
  induction part, cs using partsFrom.induct with
  | case1 part =>
    rw [partsFrom]
    exact List.forall_mem_singleton.mpr (clean_reverse.mpr hPart)
  | case2 part rest ih =>
    rw [partsFrom]
    have hRest := (clean_cons.mp (clean_cons.mp h).2).2
    exact List.forall_mem_cons.mpr ⟨clean_reverse.mpr hPart, ih clean_nil hRest⟩
  | case3 part c rest hNext ih =>
    obtain ⟨hChar, hRest⟩ := clean_cons.mp h
    rw [partsFrom]
    · exact ih (clean_cons.mpr ⟨hChar, hPart⟩) hRest
    · exact hNext

theorem areClean_parts (cs : List Char) : AreClean (parts cs) := by
  have hText : Clean (cleaned cs ++ ['\n', '\n']) :=
    clean_append.mpr ⟨clean_cleaned cs, by decide⟩
  have hLines := areClean_withoutSpaceLines (areClean_lines (clean_untabbed hText 0))
  exact areClean_partsFrom clean_nil (clean_joined hLines)

/-! ## Blocks -/

/-- Whether the text of a block is free of STX. -/
def Block.IsClean : Block → Prop
  | paragraph text | heading _ text | code text => Clean text
  | rule => True

/-- Whether a part that is still to be read is free of STX, or the block in its place. -/
def Part.IsClean : Part → Prop
  | source cs => Clean cs
  | block b => b.IsClean

theorem clean_dropWhile {cs : List Char} (h : Clean cs) (p : Char → Bool) :
    Clean (cs.dropWhile p) :=
  h.of_subset fun _ hMem => (List.dropWhile_sublist p).subset hMem

theorem clean_drop {cs : List Char} (h : Clean cs) (n : Nat) : Clean (cs.drop n) :=
  h.of_subset fun _ => List.mem_of_mem_drop

theorem clean_dropWhileEnd {cs : List Char} (h : Clean cs) (p : Char → Bool) :
    Clean (cs.reverse.dropWhile p).reverse :=
  clean_reverse.mpr (clean_dropWhile (clean_reverse.mpr h) p)

theorem clean_trim {cs : List Char} (h : Clean cs) : Clean (trim cs) :=
  clean_dropWhileEnd (clean_dropWhile h _) _

theorem isClean_ofSource {cs : List Char} (h : Clean cs) :
    ∀ part ∈ Part.ofSource cs, part.IsClean := by
  intro part hMem
  unfold Part.ofSource at hMem
  split at hMem
  · cases hMem
  · rw [List.mem_singleton] at hMem
    subst hMem
    exact h

theorem clean_of_headingEnd? {cs rest : List Char} (h : Clean cs)
    (hEnd : headingEnd? cs = some rest) : Clean rest := by
  have hBehind := clean_dropWhile h (· = '#')
  unfold headingEnd? at hEnd
  split at hEnd
  · cases hEnd
    exact clean_nil
  · rename_i more hLine
    cases hEnd
    rw [hLine] at hBehind
    exact (clean_cons.mp hBehind).2
  · cases hEnd

theorem clean_of_headingText? {cs : List Char} (h : Clean cs) {text rest : List Char}
    (hFound : headingText? cs = some (text, rest)) : Clean text ∧ Clean rest := by
  induction cs using headingText?.induct generalizing text rest with
  | case1 =>
    cases hFound
    exact ⟨clean_nil, clean_nil⟩
  | case2 c cs behind hEnd =>
    unfold headingText? at hFound
    rw [hEnd] at hFound
    cases hFound
    exact ⟨clean_nil, clean_of_headingEnd? h hEnd⟩
  | case3 cs hEnd =>
    unfold headingText? at hFound
    rw [hEnd] at hFound
    simp at hFound
  | case4 d cs hLineEnd hEnd ih =>
    unfold headingText? at hFound
    rw [hEnd] at hFound
    simp only [if_pos, if_neg hLineEnd, Option.map_eq_some_iff, Prod.mk.injEq] at hFound
    obtain ⟨found, hMore, rfl, rfl⟩ := hFound
    obtain ⟨hSlash, hRest⟩ := clean_cons.mp h
    obtain ⟨hChar, hRest⟩ := clean_cons.mp hRest
    obtain ⟨hText, hBehind⟩ := ih hRest hMore
    exact ⟨clean_cons.mpr ⟨hSlash, clean_cons.mpr ⟨hChar, hText⟩⟩, hBehind⟩
  | case5 hEnd =>
    unfold headingText? at hFound
    rw [hEnd] at hFound
    simp at hFound
  | case6 c cs hEnd hSlash ih =>
    unfold headingText? at hFound
    rw [hEnd] at hFound
    simp only [if_neg hSlash, Option.map_eq_some_iff, Prod.mk.injEq] at hFound
    obtain ⟨found, hMore, rfl, rfl⟩ := hFound
    obtain ⟨hChar, hRest⟩ := clean_cons.mp h
    obtain ⟨hText, hBehind⟩ := ih hRest hMore
    exact ⟨clean_cons.mpr ⟨hChar, hText⟩, hBehind⟩

theorem isClean_of_heading? {cs rest : List Char} {b : Block} (h : Clean cs)
    (hFound : heading? cs = some (b, rest)) : b.IsClean ∧ Clean rest := by
  unfold heading? at hFound
  dsimp only at hFound
  split at hFound
  · cases hFound
  · simp only [Option.map_eq_some_iff, Prod.mk.injEq] at hFound
    obtain ⟨found, hText, rfl, rfl⟩ := hFound
    obtain ⟨hTitle, hRest⟩ := clean_of_headingText? (clean_drop h _) hText
    exact ⟨clean_trim hTitle, hRest⟩

theorem isClean_of_headingWithin? {cs before behind : List Char} {b : Block} {atStart : Bool}
    (h : Clean cs) (hFound : headingWithin? atStart cs = some (before, b, behind)) :
    Clean before ∧ b.IsClean ∧ Clean behind := by
  induction cs generalizing atStart before with
  | nil => cases hFound
  | cons c cs ih =>
    rw [headingWithin?] at hFound
    split at hFound
    · rename_i found rest hHere
      cases hFound
      split at hHere
      · exact ⟨clean_nil, isClean_of_heading? h hHere⟩
      · cases hHere
    · simp only [Option.map_eq_some_iff, Prod.mk.injEq] at hFound
      obtain ⟨⟨front, found, rest⟩, hLater, rfl, rfl, rfl⟩ := hFound
      obtain ⟨hChar, hRest⟩ := clean_cons.mp h
      obtain ⟨hFront, hBlock, hBehind⟩ := ih hRest hLater
      exact ⟨clean_cons.mpr ⟨hChar, hFront⟩, hBlock, hBehind⟩

theorem clean_withoutLineEnd {cs : List Char} (h : Clean cs) : Clean (withoutLineEnd cs) := by
  unfold withoutLineEnd
  split
  · exact h.of_subset fun _ hMem => (List.dropLast_sublist cs).subset hMem
  · exact h

theorem isClean_of_ruledHeading? {cs rest : List Char} {b : Block} (h : Clean cs)
    (hFound : ruledHeading? cs = some (b, rest)) : b.IsClean ∧ Clean rest := by
  have hLines := areClean_lines h
  unfold ruledHeading? at hFound
  split at hFound
  · rename_i first line more hSplit
    rw [hSplit] at hLines
    obtain ⟨hFirst, hMore⟩ := List.forall_mem_cons.mp hLines
    dsimp only at hFound
    split at hFound
    · cases hFound
      exact ⟨clean_trim hFirst, clean_joined fun part hMem =>
        hMore part (List.mem_cons_of_mem _ hMem)⟩
    · cases hFound
  · cases hFound

theorem areClean_of_ruleWithin? {parts before behind : List (List Char)} (h : AreClean parts)
    (hFound : ruleWithin? parts = some (before, behind)) : AreClean before ∧ AreClean behind := by
  induction parts generalizing before with
  | nil => cases hFound
  | cons line rest ih =>
    obtain ⟨hLine, hRest⟩ := List.forall_mem_cons.mp h
    rw [ruleWithin?] at hFound
    split at hFound
    · cases hFound
      exact ⟨fun _ hMem => absurd hMem List.not_mem_nil, hRest⟩
    · simp only [Option.map_eq_some_iff, Prod.mk.injEq] at hFound
      obtain ⟨⟨front, more⟩, hLater, rfl, rfl⟩ := hFound
      obtain ⟨hFront, hBehind⟩ := ih hRest hLater
      exact ⟨List.forall_mem_cons.mpr ⟨hLine, hFront⟩, hBehind⟩

theorem areClean_indented {parts : List (List Char)} (h : AreClean parts) :
    AreClean (indented parts).1 ∧ AreClean (indented parts).2 := by
  induction parts with
  | nil => exact ⟨h, h⟩
  | cons line rest ih =>
    obtain ⟨hLine, hRest⟩ := List.forall_mem_cons.mp h
    obtain ⟨hCode, hBehind⟩ := ih hRest
    simp only [indented]
    split
    · exact ⟨List.forall_mem_cons.mpr ⟨clean_drop hLine _, hCode⟩, hBehind⟩
    · split
      · exact ⟨List.forall_mem_cons.mpr ⟨clean_nil, hCode⟩, hBehind⟩
      · exact ⟨fun _ hMem => absurd hMem List.not_mem_nil, h⟩

theorem isClean_continueCode {text : List Char} {done : List Block} (hText : Clean text)
    (h : ∀ b ∈ done, b.IsClean) : ∀ b ∈ continueCode text done, b.IsClean := by
  unfold continueCode
  split
  · obtain ⟨hBefore, hRest⟩ := List.forall_mem_cons.mp h
    exact List.forall_mem_cons.mpr ⟨clean_append.mpr ⟨hBefore, hText⟩, hRest⟩
  · exact h

theorem isClean_addCode {text : List Char} {done : List Block} (hText : Clean text)
    (h : ∀ b ∈ done, b.IsClean) : ∀ b ∈ addCode text done, b.IsClean := by
  have hEnd : Clean (text ++ ['\n']) := clean_append.mpr ⟨hText, by decide⟩
  unfold addCode
  split
  · obtain ⟨hBefore, hRest⟩ := List.forall_mem_cons.mp h
    refine List.forall_mem_cons.mpr ⟨?_, hRest⟩
    have hMore : Clean ('\n' :: (text ++ ['\n'])) := clean_cons.mpr ⟨by decide, hEnd⟩
    simpa [Block.IsClean] using clean_append.mpr ⟨hBefore, hMore⟩
  · exact List.forall_mem_cons.mpr ⟨hEnd, h⟩

theorem isClean_blocksFrom {fuel : Nat} {done : List Block} {more : List Part}
    (hDone : ∀ b ∈ done, b.IsClean) (hMore : ∀ part ∈ more, part.IsClean) :
    ∀ b ∈ blocksFrom fuel done more, b.IsClean := by
  induction fuel generalizing done more with
  | zero => simpa [blocksFrom] using hDone
  | succ fuel ih =>
    cases more with
    | nil => simpa [blocksFrom] using hDone
    | cons part more =>
      obtain ⟨hPart, hRest⟩ := List.forall_mem_cons.mp hMore
      have hBehind : ∀ {cs : List Char}, Clean cs →
          ∀ part ∈ Part.ofSource cs ++ more, part.IsClean :=
        fun hText => List.forall_mem_append.mpr ⟨isClean_ofSource hText, hRest⟩
      cases part with
      | block b =>
        rw [blocksFrom]
        exact ih (List.forall_mem_cons.mpr ⟨hPart, hDone⟩) hRest
      | source cs =>
        have hText : Clean cs := hPart
        unfold blocksFrom
        split
        · exact ih (isClean_continueCode (by decide) hDone) hRest
        · exact ih (isClean_continueCode (by decide) hDone) (hBehind (clean_cons.mp hText).2)
        · split
          · obtain ⟨hCode, hLeft⟩ := areClean_indented (areClean_lines hText)
            exact ih (isClean_addCode (clean_dropWhileEnd (clean_joined hCode) _) hDone)
              (hBehind (clean_joined hLeft))
          · split
            · rename_i before b behind hHeading
              obtain ⟨hBefore, hBlock, hLeft⟩ := isClean_of_headingWithin? hText hHeading
              refine ih hDone ?_
              rw [List.append_assoc, List.cons_append]
              exact List.forall_mem_append.mpr ⟨isClean_ofSource (clean_withoutLineEnd hBefore),
                List.forall_mem_cons.mpr ⟨hBlock, hBehind hLeft⟩⟩
            · split
              · rename_i b rest hRuled
                obtain ⟨hBlock, hLeft⟩ := isClean_of_ruledHeading? hText hRuled
                exact ih (List.forall_mem_cons.mpr ⟨hBlock, hDone⟩) (hBehind hLeft)
              · split
                · rename_i before behind hRule
                  obtain ⟨hBefore, hLeft⟩ := areClean_of_ruleWithin? (areClean_lines hText) hRule
                  refine ih hDone ?_
                  rw [List.append_assoc, List.cons_append]
                  have hFront := clean_dropWhileEnd (clean_joined hBefore) (· = '\n')
                  exact List.forall_mem_append.mpr
                    ⟨isClean_ofSource hFront, List.forall_mem_cons.mpr
                    ⟨trivial, hBehind (clean_dropWhile (clean_joined hLeft) _)⟩⟩
                · refine ih ?_ hRest
                  split
                  · exact hDone
                  · exact List.forall_mem_cons.mpr ⟨clean_dropWhile hText _, hDone⟩

/-- The blocks of a text have no STX, even if the text has one. -/
theorem isClean_blocks (cs : List Char) : ∀ b ∈ blocks cs, b.IsClean := by
  have hParts := areClean_parts cs
  refine isClean_blocksFrom (fun _ hMem => absurd hMem List.not_mem_nil) fun part hMem => ?_
  obtain ⟨text, hText, rfl⟩ := List.mem_map.mp hMem
  exact hParts text hText

end PageBlocks.Markup.Light
