import Mathlib.Data.List.Infix
import PageBlocks.Proofs.Deferral.Layout
import PageBlocks.Proofs.Searching

/-!
# Texts cut at their tags

What it is for a text to be cut at its tags (`Cuts`), apart from the scan that does it. No tag can
be laid across the border of two parts, since the opening marker begins with a character that
stands nowhere else in it and the closing marker is a single character; so every text is cut in
exactly one way, the one that `split` finds (`cuts_iff`).
-/

set_option autoImplicit false

namespace PageBlocks.Fragment

open PageBlocks.Text

/-- The texts of a cut, from the one in front of the first tag to the one behind the last. -/
def texts (parts : List Char × List (List Char × List Char)) : List (List Char) :=
  parts.1 :: parts.2.map Prod.snd

/-- The payloads of the tags of a cut. -/
def payloads (parts : List Char × List (List Char × List Char)) : List (List Char) :=
  parts.2.map Prod.fst

/-- How a text is cut at its tags. -/
structure Cuts (cs : List Char) (parts : List Char × List (List Char × List Char)) : Prop where
  whole : unsplit parts = cs
  /-- A tag ends with the first closing marker behind its opening. -/
  closed : ∀ payload ∈ payloads parts, '\x03' ∉ payload
  /-- It begins with the first opening marker. -/
  unopened : ∀ text ∈ (texts parts).dropLast, ¬ opening <:+: text
  /-- An opening marker behind the last tag is never closed. -/
  dangling : ∀ text ∈ (texts parts).getLast?, ∀ before behind,
    text = before ++ opening ++ behind → '\x03' ∉ behind

/-! ## The first tag -/

theorem cut?_opening {before behind : List Char} (h : ¬ opening <:+: before) :
    cut? opening (before ++ (opening ++ behind)) = some (before, behind) :=
  cut?_append (by decide) h

theorem cut?_closing_eq_none_iff {cs : List Char} : cut? closing cs = none ↔ '\x03' ∉ cs := by
  rw [cut?_eq_none_iff, closing, List.singleton_infix_iff]

theorem first?_append {before payload behind : List Char} (hBefore : ¬ opening <:+: before)
    (hPayload : '\x03' ∉ payload) :
    first? (before ++ (tagOf payload ++ behind)) = some (before, payload, behind) := by
  have hShape : before ++ (tagOf payload ++ behind)
      = before ++ (opening ++ (payload ++ closing ++ behind)) := by
    simp [tagOf]
  rw [hShape, first?, cut?_opening hBefore]
  simp only [Option.bind_eq_bind, Option.bind_some, Deferral.cut?_closing behind hPayload]
  rfl

/-- Neither does the text before the first tag hold an opening marker nor its payload a closing
one. -/
theorem first?_eq_some {cs before payload behind : List Char}
    (h : first? cs = some (before, payload, behind)) :
    ¬ opening <:+: before ∧ '\x03' ∉ payload := by
  simp only [first?, Option.bind_eq_bind, Option.bind_eq_some_iff, Prod.exists, Option.pure_def,
    Option.some.injEq, Prod.mk.injEq] at h
  obtain ⟨_, rest, hOpen, _, _, hClose, rfl, rfl, rfl⟩ := h
  have hPayload := not_infix_of_cut? (List.cons_ne_nil _ _) hClose
  exact ⟨not_infix_of_cut? (List.cons_ne_nil _ _) hOpen,
    fun hMem => hPayload ((List.singleton_infix_iff _ _).mpr hMem)⟩

/-- A text has no tag exactly if no opening marker in it is closed. -/
theorem first?_eq_none_iff {cs : List Char} : first? cs = none ↔
    ∀ before behind, cs = before ++ opening ++ behind → '\x03' ∉ behind := by
  constructor
  · rintro hNone before behind rfl hClosed
    obtain ⟨front, rest, hCut, hSuffix⟩ := exists_cut? opening before behind
    -- the first opening marker has all of `behind` behind it, too
    rw [List.append_assoc, first?, hCut] at hNone
    simp only [Option.bind_eq_bind, Option.bind_some] at hNone
    cases hClose : cut? closing rest with
    | none => exact cut?_closing_eq_none_iff.mp hClose (hSuffix.subset hClosed)
    | some parts =>
      rw [hClose] at hNone
      cases hNone
  · intro hDangling
    cases hFound : first? cs with
    | none => rfl
    | some parts =>
      obtain ⟨before, payload, behind⟩ := parts
      have hShape := eq_append_of_first? hFound
      refine absurd ?_ (hDangling before (payload ++ closing ++ behind) ?_)
      · simp [closing]
      · rw [hShape]
        simp [tagOf]

/-! ## One cut -/

theorem cuts_nil_iff {cs text : List Char} : Cuts cs (text, []) ↔
    text = cs ∧ ∀ before behind, text = before ++ opening ++ behind → '\x03' ∉ behind := by
  constructor
  · intro h
    exact ⟨(List.append_nil text).symm.trans h.whole, h.dangling text rfl⟩
  · rintro ⟨rfl, hDangling⟩
    refine ⟨List.append_nil text, nofun, nofun, ?_⟩
    rintro _ ⟨⟩
    exact hDangling

/-- A cut with a tag is a tag in front of a cut of what follows it. -/
theorem cuts_cons_iff {cs text payload next : List Char} {more : List (List Char × List Char)} :
    Cuts cs (text, (payload, next) :: more) ↔
      cs = text ++ (tagOf payload ++ unsplit (next, more)) ∧ '\x03' ∉ payload
        ∧ ¬ opening <:+: text ∧ Cuts (unsplit (next, more)) (next, more) := by
  have hWhole : unsplit (text, (payload, next) :: more)
      = text ++ (tagOf payload ++ unsplit (next, more)) := by
    simp [unsplit]
  constructor
  · intro h
    refine ⟨h.whole.symm.trans hWhole, h.closed payload List.mem_cons_self,
      h.unopened text List.mem_cons_self, rfl, ?_, ?_, ?_⟩
    · exact fun other hMem => h.closed other (List.mem_cons_of_mem _ hMem)
    · exact fun other hMem => h.unopened other (List.mem_cons_of_mem _ hMem)
    · exact fun other hMem => h.dangling other hMem
  · rintro ⟨rfl, hPayload, hText, hRest⟩
    refine ⟨hWhole, ?_, ?_, fun other hMem => hRest.dangling other hMem⟩
    · exact List.forall_mem_cons.mpr ⟨hPayload, hRest.closed⟩
    · exact List.forall_mem_cons.mpr ⟨hText, hRest.unopened⟩

/-- A text is cut at its tags in exactly one way. -/
theorem cuts_iff {cs : List Char} {parts : List Char × List (List Char × List Char)} :
    Cuts cs parts ↔ parts = split cs := by
  constructor
  · intro h
    -- a cut begins with the first tag that the scan finds, and goes on as a cut of what follows it
    obtain ⟨text, more⟩ := parts
    induction more generalizing cs text with
    | nil =>
      obtain ⟨rfl, hDangling⟩ := cuts_nil_iff.mp h
      rw [Deferral.splitTags_of_first?_eq_none (first?_eq_none_iff.mpr hDangling)]
    | cons part more ih =>
      obtain ⟨payload, next⟩ := part
      obtain ⟨rfl, hPayload, hText, hRest⟩ := cuts_cons_iff.mp h
      rw [Deferral.splitTags_of_first? (first?_append hText hPayload), ← ih next hRest]
  · rintro rfl
    induction cs using split.induct with
    | case1 cs before payload behind hFound _ text more hSplit ih =>
      obtain ⟨hBefore, hPayload⟩ := first?_eq_some hFound
      rw [hSplit] at ih
      rw [Deferral.splitTags_of_first? hFound, hSplit, cuts_cons_iff, ih.whole, ← List.append_assoc]
      exact ⟨eq_append_of_first? hFound, hPayload, hBefore, ih⟩
    | case2 cs hNone =>
      rw [Deferral.splitTags_of_first?_eq_none hNone, cuts_nil_iff]
      exact ⟨rfl, first?_eq_none_iff.mp hNone⟩

end PageBlocks.Fragment
