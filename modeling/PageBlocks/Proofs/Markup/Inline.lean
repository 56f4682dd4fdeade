import PageBlocks.Proofs.Markup.Lines

/-!
# Light markup: running text

Every rule for running text puts symbols that show no STX in the place of others (`Rule.Keeps`). For
the rules of emphasis that comes down to their patterns (`Pattern.Keeps`), which only take a text
apart. Written out, running text without STX is tagged text without STX, and so is every text in
light markup (`clean_render`).
-/

set_option autoImplicit false

namespace PageBlocks.Markup.Light

open PageBlocks.Deferral PageBlocks.Text

/-! ## Symbols -/

/-- A symbol that shows no STX. -/
inductive Symbol.IsClean : Symbol → Prop where
  | char {c : Char} (h : c ≠ '\x02') : IsClean (.char c)
  | literal {c : Char} (h : c ≠ '\x02') : IsClean (.literal c)
  | ready {text : List Char} (h : Clean text) : IsClean (.ready text)
  | lineBreak : IsClean .lineBreak
  | element {tag : String} {inside : List Symbol} (hTag : Clean tag.toList)
    (hInside : ∀ s ∈ inside, IsClean s) : IsClean (.element tag inside)

/-- Symbols that show no STX. -/
def ShowClean (line : List Symbol) : Prop := ∀ s ∈ line, s.IsClean

section Lists

variable {line rest : List Symbol} {s : Symbol}

theorem showClean_nil : ShowClean [] := fun _ hMem => absurd hMem List.not_mem_nil

theorem showClean_cons : ShowClean (s :: line) ↔ s.IsClean ∧ ShowClean line :=
  List.forall_mem_cons

theorem showClean_append : ShowClean (line ++ rest) ↔ ShowClean line ∧ ShowClean rest :=
  List.forall_mem_append

theorem ShowClean.of_sublist (h : ShowClean line) (hSub : rest.Sublist line) : ShowClean rest :=
  fun s hMem => h s (hSub.subset hMem)

theorem ShowClean.drop (h : ShowClean line) (n : Nat) : ShowClean (line.drop n) :=
  h.of_sublist (List.drop_sublist n line)

theorem ShowClean.takeWhile (h : ShowClean line) (p : Symbol → Bool) :
    ShowClean (line.takeWhile p) :=
  h.of_sublist (List.takeWhile_sublist p)

theorem showClean_symbols {cs : List Char} (h : Clean cs) : ShowClean (symbols cs) := by
  intro s hMem
  obtain ⟨c, hc, rfl⟩ := List.mem_map.mp hMem
  refine .char ?_
  rintro rfl
  exact h hc

/-- The characters that symbols show. -/
theorem ShowClean.shown (h : ShowClean line) : Clean (line.filterMap Symbol.shown?) := by
  intro hMem
  obtain ⟨s, hs, hShown⟩ := List.mem_filterMap.mp hMem
  cases h s hs with
  | char hChar => exact hChar (Option.some.inj hShown)
  | literal hChar => exact hChar (Option.some.inj hShown)
  | ready _ => cases hShown
  | lineBreak => cases hShown
  | element _ _ => cases hShown

theorem clean_guarded {c : Char} (h : c ≠ '\x02') : Clean (guarded c) := by
  unfold guarded
  split
  · decide
  · split
    · decide
    · split
      · decide
      · exact clean_cons.mpr ⟨h, clean_nil⟩

theorem clean_flatMap_guarded {cs : List Char} (h : Clean cs) : Clean (cs.flatMap guarded) := by
  refine clean_flatMap fun c hMem => clean_guarded ?_
  rintro rfl
  exact h hMem

/-! ## Rules -/

/-- A rule that makes symbols without STX of symbols without STX. -/
def Rule.Keeps (rule : Rule) : Prop :=
  ∀ before line made rest, ShowClean line → rule before line = some (made, rest) →
    ShowClean made ∧ ShowClean rest

theorem Rule.Keeps.applyFirst? {rule : Rule} (hRule : rule.Keeps) {before : Option Symbol}
    {found : List Symbol} (h : ShowClean line)
    (hFound : rule.applyFirst? before line = some found) :
    ShowClean found := by
  induction line generalizing before found with
  | nil => cases hFound
  | cons s line ih =>
    rw [Rule.applyFirst?] at hFound
    split at hFound
    · rename_i made behind hHere
      cases hFound
      exact showClean_append.mpr (hRule _ _ _ _ h hHere)
    · obtain ⟨more, hLater, rfl⟩ := Option.map_eq_some_iff.mp hFound
      obtain ⟨hHead, hTail⟩ := showClean_cons.mp h
      exact showClean_cons.mpr ⟨hHead, ih hTail hLater⟩

theorem Rule.Keeps.applyFrom {rule : Rule} (hRule : rule.Keeps) (fuel : Nat) (h : ShowClean line) :
    ShowClean (rule.applyFrom fuel line) := by
  induction fuel generalizing line with
  | zero => exact h
  | succ fuel ih =>
    rw [Rule.applyFrom]
    split
    · rename_i found hFound
      exact ih (hRule.applyFirst? h hFound)
    · exact h

theorem Rule.Keeps.apply {rule : Rule} (hRule : rule.Keeps) (h : ShowClean line) :
    ShowClean (rule.apply line) :=
  hRule.applyFrom _ h

theorem sublist_of_marks? {mark : Char} {n : Nat} (h : marks? mark n line = some rest) :
    rest.Sublist line := by
  induction n generalizing line with
  | zero =>
    cases h
    exact List.Sublist.refl _
  | succ n ih =>
    cases line with
    | nil => cases h
    | cons s line =>
      rw [marks?] at h
      split at h
      · exact (ih h).cons s
      · cases h

/-- A text is split into a first part and a second one that was accepted. -/
theorem exists_of_split? {α : Type} {accept : Symbol → List Symbol → Option α} {least : Nat}
    {before : Symbol} {first : List Symbol} {a : α}
    (h : split? accept least before line = some (first, a)) :
    ∃ last second, line = first ++ second ∧ accept last second = some a := by
  induction line generalizing least before first with
  | nil =>
    rw [split?] at h
    split at h
    · obtain ⟨found, hAccept, hSame⟩ := Option.map_eq_some_iff.mp h
      cases hSame
      exact ⟨before, [], rfl, hAccept⟩
    · cases h
  | cons s line ih =>
    rw [split?] at h
    split at h
    · rename_i found hHere
      cases h
      split at hHere
      · exact ⟨before, s :: line, rfl, hHere⟩
      · cases hHere
    · obtain ⟨parts, hLater, hSame⟩ := Option.map_eq_some_iff.mp h
      cases hSame
      obtain ⟨last, second, rfl, hAccept⟩ := ih hLater
      exact ⟨last, second, rfl, hAccept⟩

/-- What is accepted of a second part without STX is what the first part is split off from. -/
theorem showClean_of_split? {α : Type} {P : α → Prop} {accept : Symbol → List Symbol → Option α}
    {least : Nat} {before : Symbol} {first : List Symbol} {a : α} (h : ShowClean line)
    (hAccept : ∀ last second a, ShowClean second → accept last second = some a → P a)
    (hSplit : split? accept least before line = some (first, a)) : ShowClean first ∧ P a := by
  obtain ⟨last, second, rfl, hSecond⟩ := exists_of_split? hSplit
  obtain ⟨hFirst, hRest⟩ := showClean_append.mp h
  exact ⟨hFirst, hAccept last second a hRest hSecond⟩

theorem ShowClean.of_marks? {mark : Char} {n : Nat} (h : ShowClean line)
    (hMarks : marks? mark n line = some rest) : ShowClean rest :=
  h.of_sublist (sublist_of_marks? hMarks)

end Lists

/-! ### Code, line ends, tags and marks that stand alone -/

theorem clean_codeText {inside : List Symbol} (h : ShowClean inside) : Clean (codeText inside) :=
  clean_flatMap_guarded (clean_trim h.shown)

theorem showClean_of_code? {n : Nat} {line made rest : List Symbol} (h : ShowClean line)
    (hCode : code? n line = some (made, rest)) : ShowClean made ∧ ShowClean rest := by
  induction n with
  | zero => cases hCode
  | succ n ih =>
    rw [code?] at hCode
    split at hCode
    · rename_i inside behind hSplit
      cases hCode
      have hParts : ShowClean inside ∧ ShowClean rest := by
        refine showClean_of_split? (h.drop (n + 1)) (fun last second a hSecond hAccept => ?_) hSplit
        split at hAccept
        · cases hAccept
        · exact hSecond.of_marks? hAccept
      refine ⟨showClean_cons.mpr ⟨.element (by decide) ?_, showClean_nil⟩, hParts.2⟩
      exact showClean_cons.mpr ⟨.ready (clean_codeText hParts.1), showClean_nil⟩
    · exact ih hCode

theorem keeps_codeRule : Rule.Keeps codeRule := by
  intro before line made rest h hFound
  unfold codeRule at hFound
  dsimp only at hFound
  split at hFound
  · cases hFound
  · split at hFound
    · exact showClean_of_code? h hFound
    · split at hFound
      · cases hFound
        refine ⟨fun s hMem => ?_, h.drop _⟩
        rw [List.eq_of_mem_replicate hMem]
        exact .literal (by decide)
      · cases hFound

theorem keeps_escapeRule : Rule.Keeps escapeRule := by
  intro before line made rest h hFound
  unfold escapeRule at hFound
  split at hFound
  · rename_i c behind
    split at hFound
    · cases hFound
      obtain ⟨-, hBehind⟩ := showClean_cons.mp h
      obtain ⟨hChar, hRest⟩ := showClean_cons.mp hBehind
      cases hChar with
      | char hChar => exact ⟨showClean_cons.mpr ⟨.literal hChar, showClean_nil⟩, hRest⟩
    · cases hFound
  · cases hFound

theorem keeps_breakRule : Rule.Keeps breakRule := by
  intro before line made rest h hFound
  unfold breakRule at hFound
  split at hFound
  · cases hFound
    exact ⟨showClean_cons.mpr ⟨.lineBreak, showClean_nil⟩, h.drop 3⟩
  · cases hFound

theorem keeps_tagRule : Rule.Keeps tagRule := by
  intro before line made rest h hFound
  unfold tagRule at hFound
  split at hFound
  · rename_i behind
    have hBehind : ShowClean behind := (showClean_cons.mp h).2
    dsimp only at hFound
    split at hFound
    · split at hFound
      · cases hFound
        refine ⟨showClean_cons.mpr ⟨.ready ?_, showClean_nil⟩, (hBehind.drop _).drop 1⟩
        have hInside := (hBehind.takeWhile fun s => !(s.isChar '<' || s.isChar '>')).shown
        exact clean_cons.mpr ⟨by decide, clean_append.mpr ⟨hInside, by decide⟩⟩
      · cases hFound
    · cases hFound
  · cases hFound

theorem keeps_loneRule : Rule.Keeps loneRule := by
  intro before line made rest h hFound
  have hAlone : ∀ mark : Char, mark ≠ '\x02' → ∀ made rest,
      (if 1 ≤ markCount mark line && markCount mark line ≤ 3
          && (line.drop (markCount mark line)).head?.all Symbol.isBlank then
        some (List.replicate (markCount mark line) (Symbol.literal mark),
          line.drop (markCount mark line))
      else none) = some (made, rest) → ShowClean made ∧ ShowClean rest := by
    intro mark hMark made rest hSome
    split at hSome
    · cases hSome
      refine ⟨fun s hMem => ?_, h.drop _⟩
      rw [List.eq_of_mem_replicate hMem]
      exact .literal hMark
    · cases hSome
  unfold loneRule at hFound
  dsimp only at hFound
  split at hFound
  · split at hFound
    · rename_i found hStar
      cases hFound
      exact hAlone '*' (by decide) _ _ hStar
    · exact hAlone '_' (by decide) _ _ hFound
  · cases hFound

/-! ## Patterns -/

/-- A finding in symbols without STX. -/
def Finding.IsClean : Finding → Prop
  | .single tag inside rest => Clean tag.toList ∧ ShowClean inside ∧ ShowClean rest
  | .opening outer inner first second rest | .closing outer inner first second rest =>
    (Clean outer.toList ∧ Clean inner.toList) ∧ ShowClean first ∧ ShowClean second ∧ ShowClean rest

/-- A pattern that takes symbols without STX apart. -/
def Pattern.Keeps (pattern : Pattern) : Prop :=
  ∀ before line found, ShowClean line → pattern before line = some found → found.IsClean

theorem keeps_triple {mark : Char} {first second : Nat} {outer inner : String}
    (hOuter : Clean outer.toList) (hInner : Clean inner.toList) :
    Pattern.Keeps (triple mark first second outer inner) := by
  intro before line found h hFound
  simp only [triple, Option.bind_eq_bind, Option.bind_eq_some_iff] at hFound
  obtain ⟨behind, hOpen, ⟨one, two, rest⟩, hSplit, hSame⟩ := hFound
  cases hSame
  have hParts : ShowClean one ∧ ShowClean (two, rest).1 ∧ ShowClean (two, rest).2 := by
    refine showClean_of_split? (P := fun parts => ShowClean parts.1 ∧ ShowClean parts.2)
      (h.of_marks? hOpen) (fun last middle parts hMiddle hAccept => ?_) hSplit
    simp only [Option.bind_eq_some_iff] at hAccept
    obtain ⟨inside, hClose, hMore⟩ := hAccept
    exact showClean_of_split? (hMiddle.of_marks? hClose)
      (fun _ _ _ hEnd hMarks => hEnd.of_marks? hMarks) hMore
  exact ⟨⟨hOuter, hInner⟩, hParts⟩

theorem keeps_starsWithin : Pattern.Keeps starsWithin := by
  intro before line found h hFound
  simp only [starsWithin, Option.bind_eq_bind, Option.bind_eq_some_iff] at hFound
  obtain ⟨behind, hOpen, hFound⟩ := hFound
  have hBehind := h.of_marks? hOpen
  split at hFound
  · cases hFound
  · obtain ⟨⟨second, rest⟩, hSplit, hSame⟩ := Option.bind_eq_some_iff.mp hFound
    cases hSame
    have hParts := showClean_of_split? ((hBehind.drop _).drop 1)
      (fun _ _ _ hEnd hMarks => hEnd.of_marks? hMarks) hSplit
    exact ⟨⟨by decide, by decide⟩, hBehind.takeWhile _, hParts⟩

theorem keeps_strongStars : Pattern.Keeps strongStars := by
  intro before line found h hFound
  simp only [strongStars, Option.bind_eq_bind, Option.bind_eq_some_iff] at hFound
  obtain ⟨behind, hOpen, ⟨inside, rest⟩, hSplit, hSame⟩ := hFound
  cases hSame
  exact ⟨by decide, showClean_of_split? (h.of_marks? hOpen)
    (fun _ _ _ hEnd hMarks => hEnd.of_marks? hMarks) hSplit⟩

theorem keeps_singleStars : Pattern.Keeps singleStars := by
  intro before line found h hFound
  simp only [singleStars, Option.bind_eq_bind, Option.bind_eq_some_iff] at hFound
  obtain ⟨behind, hOpen, rest, hClose, hFound⟩ := hFound
  have hBehind := h.of_marks? hOpen
  split at hFound
  · cases hFound
  · cases hFound
    exact ⟨by decide, hBehind.takeWhile _, (hBehind.drop _).of_marks? hClose⟩

theorem ShowClean.of_openingBars? {count : Nat} {before : Option Symbol} {line rest : List Symbol}
    (h : ShowClean line) (hBars : openingBars? count before line = some rest) : ShowClean rest := by
  simp only [openingBars?, Option.bind_eq_bind, Option.bind_eq_some_iff] at hBars
  obtain ⟨behind, hMarks, hBars⟩ := hBars
  split at hBars
  · cases hBars
  · cases hBars
    exact h.of_marks? hMarks

theorem ShowClean.of_closingBars? {count : Nat} {line rest : List Symbol} (h : ShowClean line)
    (hBars : closingBars? count line = some rest) : ShowClean rest := by
  simp only [closingBars?, Option.bind_eq_bind, Option.bind_eq_some_iff] at hBars
  obtain ⟨behind, hMarks, hBars⟩ := hBars
  split at hBars
  · cases hBars
  · cases hBars
    exact h.of_marks? hMarks

theorem keeps_barsWithin : Pattern.Keeps barsWithin := by
  intro before line found h hFound
  simp only [barsWithin, Option.bind_eq_bind, Option.bind_eq_some_iff] at hFound
  obtain ⟨behind, hOpen, ⟨one, two, rest⟩, hSplit, hSame⟩ := hFound
  cases hSame
  have hParts : ShowClean one ∧ ShowClean (two, rest).1 ∧ ShowClean (two, rest).2 := by
    refine showClean_of_split? (P := fun parts => ShowClean parts.1 ∧ ShowClean parts.2)
      (h.of_openingBars? hOpen) (fun last middle parts hMiddle hAccept => ?_) hSplit
    simp only [Option.bind_eq_some_iff] at hAccept
    obtain ⟨inside, hInner, hMore⟩ := hAccept
    exact showClean_of_split? (hMiddle.of_openingBars? hInner)
      (fun _ _ _ hEnd hBars => hEnd.of_closingBars? hBars) hMore
  exact ⟨⟨by decide, by decide⟩, hParts⟩

theorem keeps_bars {count : Nat} {tag : String} (hTag : Clean tag.toList) :
    Pattern.Keeps (bars count tag) := by
  intro before line found h hFound
  simp only [bars, Option.bind_eq_bind, Option.bind_eq_some_iff] at hFound
  obtain ⟨behind, hOpen, ⟨inside, rest⟩, hSplit, hSame⟩ := hFound
  cases hSame
  refine ⟨hTag, showClean_of_split? (h.of_openingBars? hOpen) (fun _ _ _ hEnd hAccept => ?_) hSplit⟩
  split at hAccept
  · cases hAccept
  · exact hEnd.of_closingBars? hAccept

/-! ## Elements -/

/-- Pieces without STX. -/
def PiecesClean (pieces : Pieces) : Prop :=
  ShowClean pieces.1 ∧ ∀ piece ∈ pieces.2, piece.1.IsClean ∧ ShowClean piece.2

theorem piecesClean_piecesFrom {made : List Symbol} {pieces : Pieces} (hMade : ShowClean made)
    (h : PiecesClean pieces) : PiecesClean (piecesFrom made pieces) := by
  induction made with
  | nil => exact h
  | cons e more ih =>
    obtain ⟨hElement, hMore⟩ := showClean_cons.mp hMade
    obtain ⟨hFirst, hRest⟩ := ih hMore
    exact ⟨showClean_nil, List.forall_mem_cons.mpr ⟨⟨hElement, hFirst⟩, hRest⟩⟩

section Elements

variable {finish : List Symbol → List Symbol} {mark : Char}

/-- What is done to a text keeps it without STX. -/
def KeepsClean (finish : List Symbol → List Symbol) : Prop :=
  ∀ line, ShowClean line → ShowClean (finish line)

theorem showClean_ofPieces (hFinish : KeepsClean finish) {pieces : Pieces}
    (h : PiecesClean pieces) :
    ShowClean (ofPieces finish pieces) := by
  refine showClean_append.mpr ⟨hFinish _ h.1, fun s hMem => ?_⟩
  obtain ⟨piece, hPiece, hHere⟩ := List.mem_flatMap.mp hMem
  obtain ⟨hElement, hText⟩ := h.2 piece hPiece
  rcases List.mem_cons.mp hHere with rfl | hHere
  · exact hElement
  · exact hFinish _ hText s hHere

mutual

theorem piecesClean_inside (hFinish : KeepsClean finish) {patterns : List Pattern}
    (hPatterns : ∀ q ∈ patterns, Pattern.Keeps q) :
    ∀ (fuel : Nat) (before : Option Symbol) (line : List Symbol), ShowClean line →
      PiecesClean (inside finish mark fuel patterns before line)
  | 0, _, line, h => by
    rw [inside]
    exact ⟨h, fun _ hMem => absurd hMem List.not_mem_nil⟩
  | fuel + 1, _, [], h => by
    rw [inside]
    exact ⟨h, fun _ hMem => absurd hMem List.not_mem_nil⟩
  | fuel + 1, before, s :: rest, h => by
    rw [inside]
    split
    · rename_i made behind hElements
      obtain ⟨hMade, hBehind⟩ := showClean_elements? hFinish hPatterns fuel before (s :: rest) h
        hElements
      exact piecesClean_piecesFrom hMade
        (piecesClean_inside hFinish hPatterns fuel _ behind hBehind)
    · obtain ⟨hHead, hTail⟩ := showClean_cons.mp h
      obtain ⟨hFirst, hRest⟩ := piecesClean_inside hFinish hPatterns fuel (some s) rest hTail
      exact ⟨showClean_cons.mpr ⟨hHead, hFirst⟩, hRest⟩

theorem showClean_elements? (hFinish : KeepsClean finish) {patterns : List Pattern}
    (hPatterns : ∀ q ∈ patterns, Pattern.Keeps q) :
    ∀ (fuel : Nat) (before : Option Symbol) (line : List Symbol) {made rest : List Symbol},
      ShowClean line → elements? finish mark fuel patterns before line = some (made, rest) →
        ShowClean made ∧ ShowClean rest
  | 0, _, _, _, _, _, hFound => by
    rw [elements?] at hFound
    cases hFound
  | fuel + 1, before, line, made, rest, h, hFound => by
    cases patterns with
    | nil =>
      rw [elements?] at hFound
      cases hFound
    | cons pattern later =>
      obtain ⟨hPattern, hLater⟩ := List.forall_mem_cons.mp hPatterns
      rw [elements?] at hFound
      split at hFound
      · exact showClean_elements? hFinish hLater fuel before line h hFound
      · rename_i found hHere
        obtain ⟨hElement, hBehind⟩ := isClean_element hFinish hLater fuel (hPattern _ _ _ h hHere)
        dsimp only at hFound
        split at hFound
        · rename_i more behind hMore
          cases hFound
          obtain ⟨hMade, hRest⟩ := showClean_elements? hFinish hLater fuel _ _ hBehind hMore
          exact ⟨showClean_cons.mpr ⟨hElement, hMade⟩, hRest⟩
        · cases hFound
          exact ⟨showClean_cons.mpr ⟨hElement, showClean_nil⟩, hBehind⟩

theorem isClean_element (hFinish : KeepsClean finish) {later : List Pattern}
    (hLater : ∀ q ∈ later, Pattern.Keeps q) :
    ∀ (fuel : Nat) {found : Finding}, found.IsClean →
      (element finish mark fuel later found).1.IsClean
        ∧ ShowClean (element finish mark fuel later found).2
  | 0, found, h => by
    cases found with
    | single tag one rest =>
      rw [element]
      exact ⟨.element h.1 h.2.1, h.2.2⟩
    | opening outer inner one two rest =>
      rw [element]
      obtain ⟨⟨hOuter, hInner⟩, hOne, hTwo, hRest⟩ := h
      exact ⟨.element hOuter (showClean_cons.mpr ⟨.element hInner hOne, hTwo⟩), hRest⟩
    | closing outer inner one two rest =>
      rw [element]
      obtain ⟨⟨hOuter, hInner⟩, hOne, hTwo, hRest⟩ := h
      exact ⟨.element hOuter (showClean_append.mpr
        ⟨hOne, showClean_cons.mpr ⟨.element hInner hTwo, showClean_nil⟩⟩), hRest⟩
  | fuel + 1, found, h => by
    have hContent : ∀ line, ShowClean line →
        ShowClean (ofPieces finish (inside finish mark fuel later none line)) :=
      fun line hLine => showClean_ofPieces hFinish
        (piecesClean_inside hFinish hLater fuel none line hLine)
    cases found with
    | single tag one rest =>
      rw [element]
      exact ⟨.element h.1 (hContent one h.2.1), h.2.2⟩
    | opening outer inner one two rest =>
      rw [element]
      obtain ⟨⟨hOuter, hInner⟩, hOne, hTwo, hRest⟩ := h
      exact ⟨.element hOuter (showClean_cons.mpr
        ⟨.element hInner (hContent one hOne), hContent two hTwo⟩), hRest⟩
    | closing outer inner one two rest =>
      rw [element]
      obtain ⟨⟨hOuter, hInner⟩, hOne, hTwo, hRest⟩ := h
      exact ⟨.element hOuter (showClean_append.mpr ⟨hContent one hOne,
        showClean_cons.mpr ⟨.element hInner (hContent two hTwo), showClean_nil⟩⟩), hRest⟩

end

theorem keeps_firstOf (hFinish : KeepsClean finish) {patterns : List Pattern}
    (hPatterns : ∀ q ∈ patterns, Pattern.Keeps q) :
    Rule.Keeps (firstOf finish mark patterns) := by
  intro before line made rest h hFound
  induction patterns with
  | nil => cases hFound
  | cons pattern later ih =>
    obtain ⟨hPattern, hLater⟩ := List.forall_mem_cons.mp hPatterns
    rw [firstOf] at hFound
    split at hFound
    · rename_i found hHere
      generalize 8 * line.length + 8 = fuel at hFound
      have hElement : (element finish mark fuel later found).1.IsClean
          ∧ ShowClean (element finish mark fuel later found).2 :=
        isClean_element hFinish hLater fuel (hPattern _ _ _ h hHere)
      rcases hMade : element finish mark fuel later found with ⟨e, behind⟩
      rw [hMade] at hFound hElement
      cases hFound
      exact ⟨showClean_cons.mpr ⟨hElement.1, showClean_nil⟩, hElement.2⟩
    · exact ih hLater hFound

end Elements

theorem keeps_barRule : Rule.Keeps barRule := by
  refine keeps_firstOf (fun _ h => h) ?_
  simp only [barPatterns, List.forall_mem_cons]
  exact ⟨keeps_triple (by decide) (by decide), keeps_triple (by decide) (by decide),
    keeps_barsWithin, keeps_bars (by decide), keeps_bars (by decide), List.forall_mem_nil _⟩

theorem keeps_starRule : Rule.Keeps starRule := by
  refine keeps_firstOf (fun _ h => keeps_barRule.apply h) ?_
  simp only [starPatterns, List.forall_mem_cons]
  exact ⟨keeps_triple (by decide) (by decide), keeps_triple (by decide) (by decide),
    keeps_starsWithin, keeps_strongStars, keeps_singleStars, List.forall_mem_nil _⟩

theorem keeps_rules : ∀ rule ∈ rules, Rule.Keeps rule := by
  simp only [rules, List.forall_mem_cons]
  exact ⟨keeps_codeRule, keeps_escapeRule, keeps_breakRule, keeps_tagRule, keeps_loneRule,
    keeps_starRule, keeps_barRule, List.forall_mem_nil _⟩

theorem showClean_foldl_rules {line : List Symbol} (h : ShowClean line) :
    ShowClean (rules.foldl (fun line rule => rule.apply line) line) := by
  have hRules := keeps_rules
  generalize rules = some at hRules
  induction some generalizing line with
  | nil => exact h
  | cons rule more ih =>
    obtain ⟨hRule, hMore⟩ := List.forall_mem_cons.mp hRules
    exact ih (hRule.apply h) hMore

/-! ## Reviewing and writing -/

theorem piecesClean_toPieces {line : List Symbol} (h : ShowClean line) :
    PiecesClean (toPieces line) := by
  induction line with
  | nil => exact ⟨h, fun _ hMem => absurd hMem List.not_mem_nil⟩
  | cons s rest ih =>
    obtain ⟨hHead, hTail⟩ := showClean_cons.mp h
    obtain ⟨hFirst, hRest⟩ := ih hTail
    rw [toPieces]
    split
    · exact ⟨showClean_nil, List.forall_mem_cons.mpr ⟨⟨hHead, hFirst⟩, hRest⟩⟩
    · exact ⟨showClean_cons.mpr ⟨hHead, hFirst⟩, hRest⟩

mutual

theorem showClean_marked : ∀ (depth : Nat) (line : List Symbol), ShowClean line →
    ShowClean (marked depth line)
  | 0, line, h => by
    rw [marked]
    exact h
  | depth + 1, line, h => by
    rw [marked]
    intro s hMem
    obtain ⟨old, hOld, rfl⟩ := List.mem_map.mp hMem
    have hClean := showClean_foldl_rules h old hOld
    cases hClean with
    | element hTag hInside => exact .element hTag (showClean_reviewed depth false _ hInside)
    | char h => exact .char h
    | literal h => exact .literal h
    | ready h => exact .ready h
    | lineBreak => exact .lineBreak

theorem showClean_reviewed : ∀ (depth : Nat) (again : Bool) (line : List Symbol), ShowClean line →
    ShowClean (reviewed depth again line)
  | 0, _, line, h => by
    rw [reviewed]
    exact h
  | depth + 1, again, line, h => by
    obtain ⟨hFirst, hRest⟩ := piecesClean_toPieces h
    rw [reviewed]
    refine showClean_append.mpr ⟨?_, fun s hMem => ?_⟩
    · split
      · exact showClean_marked depth _ hFirst
      · exact hFirst
    · obtain ⟨piece, hPiece, hHere⟩ := List.mem_flatMap.mp hMem
      obtain ⟨hElement, hText⟩ := hRest piece hPiece
      rcases List.mem_cons.mp hHere with rfl | hHere
      · cases hKind : piece.1 with
        | element tag inside =>
          rw [hKind] at hElement
          cases hElement with
          | element hTag hInside => exact .element hTag (showClean_reviewed depth true _ hInside)
        | _ =>
          rw [hKind] at hElement
          exact hElement
      · exact showClean_marked depth _ hText s hHere

end

theorem showClean_inline {cs : List Char} (h : Clean cs) : ShowClean (inline cs) :=
  showClean_marked _ _ (showClean_symbols h)

theorem clean_tagged {tag : String} {cs : List Char} (hTag : Clean tag.toList) (h : Clean cs) :
    Clean (tagged tag cs) := by
  simp [tagged, clean_append, clean_cons, hTag, h, clean_nil]

theorem showClean_behindBreak {line : List Symbol} (h : ShowClean line) :
    ShowClean (behindBreak line) := by
  unfold behindBreak
  dsimp only
  split
  · exact h
  · split
    · exact h.drop _
    · exact h

/-- Symbols without STX are written without STX. -/
theorem clean_writeFrom {fuel : Nat} {line : List Symbol} (h : ShowClean line) :
    Clean (writeFrom fuel line) := by
  have hOne : ∀ {c : Char} {rest : List Symbol}, c ≠ '\x02' →
      Clean (if c = '&' && continuesReference (leadingText rest) then [c] else guarded c) := by
    intro c rest hChar
    split
    · exact clean_cons.mpr ⟨hChar, clean_nil⟩
    · exact clean_guarded hChar
  induction fuel, line using writeFrom.induct with
  | case1 line => exact clean_nil
  | case2 n => exact clean_nil
  | case3 fuel rest c ih =>
    obtain ⟨hHead, hTail⟩ := showClean_cons.mp h
    cases hHead with
    | char hChar => exact clean_append.mpr ⟨hOne hChar, ih hTail⟩
  | case4 fuel rest c ih =>
    obtain ⟨hHead, hTail⟩ := showClean_cons.mp h
    cases hHead with
    | literal hChar => exact clean_append.mpr ⟨hOne hChar, ih hTail⟩
  | case5 fuel rest text ih =>
    obtain ⟨hHead, hTail⟩ := showClean_cons.mp h
    cases hHead with
    | ready hText => exact clean_append.mpr ⟨hText, ih hTail⟩
  | case6 fuel rest ih =>
    obtain ⟨-, hTail⟩ := showClean_cons.mp h
    exact clean_append.mpr ⟨by decide, ih (showClean_behindBreak hTail)⟩
  | case7 fuel rest tag inside ihInside ihRest =>
    obtain ⟨hHead, hTail⟩ := showClean_cons.mp h
    cases hHead with
    | element hTag hInside =>
      exact clean_append.mpr ⟨clean_tagged hTag (ihInside hInside), ihRest hTail⟩

theorem clean_write_inline {cs : List Char} (h : Clean cs) : Clean (write (inline cs)) :=
  clean_writeFrom (showClean_inline h)

theorem clean_blockRender {b : Block} (h : b.IsClean) : Clean b.render := by
  cases b with
  | paragraph text => exact clean_tagged (by decide) (clean_write_inline h)
  | heading level text =>
    refine clean_tagged ?_ (clean_write_inline h)
    have hLevel : Clean (Number.Decimal.text level).toList := by
      rw [Number.Decimal.text, String.toList_ofList]
      exact clean_ofInt level
    rw [String.toList_append]
    exact clean_append.mpr ⟨by decide, hLevel⟩
  | code text =>
    refine clean_tagged (by decide) (clean_tagged (by decide) ?_)
    exact clean_append.mpr ⟨clean_flatMap_guarded (clean_dropWhileEnd h _), by decide⟩
  | rule => decide

/-- A text in light markup has no STX once it is tagged, whatever it held before. -/
theorem clean_render (cs : List Char) : Clean (render cs) := by
  unfold render
  split
  · exact clean_nil
  · refine clean_joined fun part hMem => ?_
    obtain ⟨b, hb, rfl⟩ := List.mem_map.mp hMem
    exact clean_blockRender (isClean_blocks cs b hb)

end PageBlocks.Markup.Light
