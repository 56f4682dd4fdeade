import Mathlib.Data.List.Infix
import PageBlocks.Block.Token
import PageBlocks.Page.Identity
import PageBlocks.Proofs.Running
import PageBlocks.Proofs.Searching

/-!
# Cutting text at tokens

A token can only start at an STX. So text without one goes through the cut as it is, a token is cut
out where it stands, and any other STX is a character like the others.

What it is for a text to be cut at its tokens (`Cuts`), apart from the scan that does it: the parts
make up the text, and no complete token is left in any piece between tokens. No token can be laid
across the border of a piece and a token, since it begins with a character that stands nowhere else
in it. So every text is cut in exactly one way, the one that `split` finds (`cuts_iff`), whatever
beginnings, ends and other parts of tokens it holds besides.

Texts with the tokens of identities between them are written one behind the other (`interleave`),
and a text is cut into what stands between its tokens and their identities (`pieces`). As there is
only one cut, the two undo each other (`pieces_eq_iff`, `scanning_inverts_writing`), as long as none
of the texts between the tokens has a complete token of its own.
-/

set_option autoImplicit false

namespace PageBlocks.Token

/-- A token starts with STX. -/
theorem leading?_cons_of_ne {c : Char} (cs : List Char) (h : c ≠ '\x02') :
    leading? (c :: cs) = none := by
  have hAfter : Text.after? opening (c :: cs) = none := by
    simp [opening, Text.after?, Ne.symm h]
  simp only [leading?, hAfter]

/-- The token of an identity is found where it stands. -/
theorem leading?_ofId {id : List Char} (rest : List Char) (hId : isId id = true) :
    leading? (ofId id ++ rest) = some (id, rest) := by
  have hLength : id.length = idLength := by
    simp only [isId, Bool.and_eq_true, decide_eq_true_eq] at hId
    exact hId.1
  have hAfter : Text.after? opening (ofId id ++ rest)
      = some (id ++ closing :: rest) := by
    have hShape : ofId id ++ rest = opening ++ (id ++ closing :: rest) := by
      simp [ofId]
    rw [hShape]
    exact Text.after?_append _ _
  have hTake : (id ++ closing :: rest).take idLength = id := by
    rw [← hLength]
    exact List.take_left
  have hDrop : (id ++ closing :: rest).drop idLength = closing :: rest := by
    rw [← hLength]
    exact List.drop_left
  simp only [leading?, hAfter, hTake, hDrop, hId, and_self, if_true]

/-- What leads a text is a token, followed by the rest. -/
theorem eq_append_of_leading? {cs id rest : List Char} (h : leading? cs = some (id, rest)) :
    isId id = true ∧ cs = ofId id ++ rest := by
  unfold leading? at h
  split at h
  · rename_i tail hTail
    split at h
    · rename_i c more hDrop
      split at h
      · rename_i hToken
        simp only [Option.some.injEq, Prod.mk.injEq] at h
        obtain ⟨rfl, rfl⟩ := h
        refine ⟨hToken.1, ?_⟩
        have hCut := List.take_append_drop idLength tail
        rw [hDrop, hToken.2] at hCut
        calc
          cs = opening ++ tail := Text.eq_append_of_after? hTail
          _ = opening ++ (tail.take idLength ++ closing :: more) := by rw [hCut]
          _ = ofId (tail.take idLength) ++ more := by simp [ofId]
      · cases h
    · cases h
  · cases h

theorem split_nil : split [] = ([], []) := by
  rw [split]
  rfl

/-- Where no token starts, a character is one of the text. -/
theorem split_cons_of_none {c : Char} {cs : List Char} (h : leading? (c :: cs) = none) :
    split (c :: cs) = (c :: (split cs).1, (split cs).2) := by
  rw [split]
  split
  · rename_i id rest hFound
    rw [h] at hFound
    cases hFound
  · rfl

theorem split_cons_of_ne {c : Char} (cs : List Char) (h : c ≠ '\x02') :
    split (c :: cs) = (c :: (split cs).1, (split cs).2) :=
  split_cons_of_none (leading?_cons_of_ne cs h)

/-- Text without STX stays in one part. -/
theorem split_append_of_clean {text : List Char} (cs : List Char) (h : '\x02' ∉ text) :
    split (text ++ cs) = (text ++ (split cs).1, (split cs).2) := by
  induction text with
  | nil => rfl
  | cons c text ih =>
    simp only [List.mem_cons, not_or] at h
    rw [List.cons_append, split_cons_of_ne _ (Ne.symm h.1), ih h.2]
    rfl

/-- An STX that starts no token stays with the text behind it. -/
theorem split_stray {text cs : List Char} (hNone : leading? ('\x02' :: (text ++ cs)) = none)
    (h : '\x02' ∉ text) :
    split ('\x02' :: (text ++ cs)) = ('\x02' :: (text ++ (split cs).1), (split cs).2) := by
  rw [split_cons_of_none hNone, split_append_of_clean cs h]

/-- A token is cut out. -/
theorem split_ofId {id : List Char} (cs : List Char) (hId : isId id = true) :
    split (ofId id ++ cs) = ([], (id, (split cs).1) :: (split cs).2) := by
  rw [split]
  split
  · rename_i found rest hFound
    rw [leading?_ofId cs hId] at hFound
    cases hFound
    rfl
  · rename_i hNone
    rw [leading?_ofId cs hId] at hNone
    cases hNone

/-- Every digest has the form of an identity. -/
theorem isId_digest (text : List Char) : isId (Identity.digest text).toList = true := by
  have hDigits : ∀ c ∈ Digest.Sha1.hex (Text.Utf8.ofText (String.ofList text)),
      Text.Hex.isDigit c = true := fun c hMem => Digest.Sha1.isDigit_of_mem_hex hMem
  simp only [isId, Identity.digest, Digest.Sha1.ofText, String.toList_ofList,
    Digest.Sha1.length_hex, idLength, decide_true, Bool.true_and, List.all_eq_true]
  exact hDigits

/-! ## Cuts -/

open PageBlocks.Text

/-- Whether a complete token stands in a text. -/
def HasToken (cs : List Char) : Prop := ∃ id, isId id = true ∧ ofId id <:+: cs

/-- How a text is cut at its tokens. -/
structure Cuts (cs : List Char) (parts : List Char × List (List Char × List Char)) : Prop where
  whole : unsplit parts = cs
  ids : ∀ part ∈ parts.2, isId part.1 = true
  first : ¬ HasToken parts.1
  others : ∀ part ∈ parts.2, ¬ HasToken part.2

/-! ## Where tokens start -/

/-- A token is found exactly where one starts. -/
theorem leading?_eq_none_iff {cs : List Char} :
    leading? cs = none ↔ ∀ id, isId id = true → ¬ ofId id <+: cs := by
  constructor
  · rintro hNone id hId ⟨rest, rfl⟩
    rw [leading?_ofId rest hId] at hNone
    cases hNone
  · intro hFree
    cases hFound : leading? cs with
    | none => rfl
    | some found =>
      obtain ⟨hId, hShape⟩ := eq_append_of_leading? hFound
      exact absurd ⟨found.2, hShape.symm⟩ (hFree found.1 hId)

theorem hasToken_cons_iff {c : Char} {cs : List Char} :
    HasToken (c :: cs) ↔ (∃ id, isId id = true ∧ ofId id <+: c :: cs) ∨ HasToken cs := by
  simp only [HasToken, List.infix_cons_iff, and_or_left, exists_or]

theorem not_hasToken_nil : ¬ HasToken [] := by
  rintro ⟨id, -, hInfix⟩
  cases List.infix_nil.mp hInfix

/-- The digits of an identity are no STX. -/
theorem stx_not_mem_of_isId {id : List Char} (hId : isId id = true) : '\x02' ∉ id := by
  intro hMem
  rw [isId, Bool.and_eq_true, List.all_eq_true] at hId
  exact absurd (hId.2 _ hMem) (by decide)

/-- A token that starts in a text in front of another token ends in it. -/
theorem ofId_prefix_of_append {id other text rest : List Char} {c : Char} (hId : isId id = true)
    (h : ofId id <+: c :: (text ++ (ofId other ++ rest))) : ofId id <+: c :: text := by
  have hTail : ofId id = '\x02' :: ("block:".toList ++ id ++ [closing]) := rfl
  have hOther : ofId other ++ rest
      = '\x02' :: ("block:".toList ++ other ++ [closing] ++ rest) := rfl
  rw [hTail, hOther] at h
  rw [hTail]
  obtain ⟨hFirst, hRest⟩ := List.cons_prefix_cons.mp h
  have hMark : '\x02' ∉ "block:".toList ++ id ++ [closing] := by
    simp only [List.mem_append, not_or]
    exact ⟨⟨by decide, stx_not_mem_of_isId hId⟩, by decide⟩
  exact List.cons_prefix_cons.mpr ⟨hFirst, prefix_of_prefix_append hMark hRest⟩

/-! ## The cut -/

/-- A text without a token is not cut. -/
theorem split_of_not_hasToken {text : List Char} (h : ¬ HasToken text) :
    split text = (text, []) := by
  induction text with
  | nil => exact split_nil
  | cons c text ih =>
    rw [hasToken_cons_iff, not_or] at h
    have hNone : leading? (c :: text) = none :=
      leading?_eq_none_iff.mpr fun id hId hPrefix => h.1 ⟨id, hId, hPrefix⟩
    rw [split_cons_of_none hNone, ih h.2]

/-- A text without a token is cut off at the token behind it. -/
theorem split_append_ofId {text id : List Char} (rest : List Char) (h : ¬ HasToken text)
    (hId : isId id = true) :
    split (text ++ (ofId id ++ rest)) = (text, (id, (split rest).1) :: (split rest).2) := by
  induction text with
  | nil => exact split_ofId rest hId
  | cons c text ih =>
    rw [hasToken_cons_iff, not_or] at h
    have hNone : leading? (c :: (text ++ (ofId id ++ rest))) = none :=
      leading?_eq_none_iff.mpr fun found hFound hPrefix =>
        h.1 ⟨found, hFound, ofId_prefix_of_append hFound hPrefix⟩
    rw [List.cons_append, split_cons_of_none hNone, ih h.2]

theorem unsplit_cons (text id next : List Char) (more : List (List Char × List Char)) :
    unsplit (text, (id, next) :: more) = text ++ (ofId id ++ unsplit (next, more)) := by
  simp [unsplit]

/-- A cut with a token is a token in front of a cut of what follows it. -/
theorem cuts_cons_iff {cs text id next : List Char} {more : List (List Char × List Char)} :
    Cuts cs (text, (id, next) :: more) ↔
      cs = text ++ (ofId id ++ unsplit (next, more)) ∧ isId id = true ∧ ¬ HasToken text
        ∧ Cuts (unsplit (next, more)) (next, more) := by
  constructor
  · rintro ⟨hWhole, hIds, hFirst, hOthers⟩
    rw [unsplit_cons] at hWhole
    rw [List.forall_mem_cons] at hIds hOthers
    exact ⟨hWhole.symm, hIds.1, hFirst, rfl, hIds.2, hOthers.1, hOthers.2⟩
  · rintro ⟨rfl, hId, hText, -, hIds, hNext, hOthers⟩
    exact ⟨unsplit_cons _ _ _ _, List.forall_mem_cons.mpr ⟨hId, hIds⟩, hText,
      List.forall_mem_cons.mpr ⟨hNext, hOthers⟩⟩

theorem cuts_split (cs : List Char) : Cuts cs (split cs) := by
  induction cs using split.induct with
  | case1 cs id rest hFound _ text more hSplit ih =>
    obtain ⟨hId, rfl⟩ := eq_append_of_leading? hFound
    rw [hSplit] at ih
    rw [split_ofId rest hId, hSplit, cuts_cons_iff, ih.whole]
    exact ⟨rfl, hId, not_hasToken_nil, ih⟩
  | case2 =>
    rw [split_nil]
    exact ⟨rfl, nofun, not_hasToken_nil, nofun⟩
  | case3 c rest hNone text more hSplit ih =>
    rw [hSplit] at ih
    rw [split_cons_of_none hNone, hSplit]
    refine ⟨congrArg (c :: ·) ih.whole, ih.ids, ?_, ih.others⟩
    rw [hasToken_cons_iff, not_or]
    refine ⟨?_, ih.first⟩
    -- a token at the start of the piece would stand at the start of the text
    rintro ⟨id, hId, hPrefix⟩
    have hPiece : c :: text <+: c :: rest := by
      rw [← ih.whole]
      exact List.cons_prefix_cons.mpr ⟨rfl, List.prefix_append _ _⟩
    exact leading?_eq_none_iff.mp hNone id hId (hPrefix.trans hPiece)

/-- A text is cut at its tokens in exactly one way. -/
theorem cuts_iff {cs : List Char} {parts : List Char × List (List Char × List Char)} :
    Cuts cs parts ↔ parts = split cs := by
  constructor
  · intro h
    obtain ⟨text, more⟩ := parts
    induction more generalizing cs text with
    | nil =>
      have hWhole : text = cs := by
        rw [← h.whole, unsplit, List.flatMap_nil, List.append_nil]
      rw [← hWhole, split_of_not_hasToken h.first]
    | cons part more ih =>
      obtain ⟨id, next⟩ := part
      obtain ⟨rfl, hId, hText, hRest⟩ := cuts_cons_iff.mp h
      rw [split_append_ofId _ hText hId, ← ih next hRest]
  · rintro rfl
    exact cuts_split cs

/-! ## Texts written with tokens -/

open PageBlocks.Running (bind_eq_ok)

/-- A text, and behind it the token of each identity with the text that follows it. It fails if
something has no token. -/
def interleave (text : String) : List (String × String) → Except Fault String
  | [] => .ok text
  | (id, next) :: more => do
    let token ← encode id
    let rest ← interleave next more
    return text ++ token ++ rest

/-- The text before the first token, and each identity with the text up to the next token. -/
def pieces (text : String) : String × List (String × String) :=
  (String.ofList (split text.toList).1,
    (split text.toList).2.map fun part => (String.ofList part.1, String.ofList part.2))

/-- No complete token stands in a text. -/
def IsTokenFree (text : String) : Prop :=
  ∀ id token, encode id = .ok token → ¬ token.toList <:+: text.toList

section Tokens

variable {id token text : String}

theorem encode_eq_ok_iff :
    encode id = .ok token ↔ isId id.toList = true ∧ token = String.ofList (ofId id.toList) := by
  unfold encode
  split
  · rename_i hId
    constructor
    · intro h
      exact ⟨hId, (Except.ok.inj h).symm⟩
    · rintro ⟨-, rfl⟩
      rfl
  · rename_i hNot
    constructor
    · intro h
      cases h
    · rintro ⟨hId, -⟩
      exact absurd hId hNot

/-- Decoding is the inverse of encoding. -/
theorem decode_eq_ok_iff : decode token = .ok id ↔ encode id = .ok token := by
  rw [encode_eq_ok_iff]
  unfold decode
  constructor
  · intro h
    split at h
    · rename_i found hFound
      obtain ⟨hId, hShape⟩ := eq_append_of_leading? hFound
      cases h
      rw [String.toList_ofList]
      rw [List.append_nil] at hShape
      exact ⟨hId, by rw [← hShape, String.ofList_toList]⟩
    · cases h
  · rintro ⟨hId, rfl⟩
    have hFound := leading?_ofId [] hId
    rw [List.append_nil] at hFound
    rw [String.toList_ofList, hFound]
    dsimp only
    rw [String.ofList_toList]

theorem isTokenFree_iff : IsTokenFree text ↔ ¬ HasToken text.toList := by
  constructor
  · rintro hFree ⟨id, hId, hInfix⟩
    have hToken : encode (String.ofList id) = .ok (String.ofList (ofId id)) := by
      rw [encode_eq_ok_iff, String.toList_ofList]
      exact ⟨hId, rfl⟩
    refine hFree _ _ hToken ?_
    rwa [String.toList_ofList]
  · intro hNone id token hToken hInfix
    obtain ⟨hId, rfl⟩ := encode_eq_ok_iff.mp hToken
    rw [String.toList_ofList] at hInfix
    exact hNone ⟨_, hId, hInfix⟩

end Tokens

section Writing

variable {text first : String} {more : List (String × String)}

/-- The same parts by their characters. -/
def characters (more : List (String × String)) : List (List Char × List Char) :=
  more.map fun part => (part.1.toList, part.2.toList)

/-- Writing fails only for something that has no token. -/
theorem interleave_eq_ok_iff :
    interleave first more = .ok text ↔
      (∀ part ∈ more, isId part.1.toList = true)
        ∧ unsplit (first.toList, characters more) = text.toList := by
  -- what follows the first token is written like the whole, with its own first text
  induction more generalizing first text with
  | nil =>
    have hWhole : unsplit (first.toList, characters []) = first.toList := List.append_nil _
    rw [hWhole, String.toList_inj]
    constructor
    · intro h
      exact ⟨nofun, Except.ok.inj h⟩
    · rintro ⟨-, rfl⟩
      rfl
  | cons part more ih =>
    obtain ⟨id, next⟩ := part
    have hWhole : unsplit (first.toList, characters ((id, next) :: more))
        = first.toList ++ (ofId id.toList ++ unsplit (next.toList, characters more)) :=
      unsplit_cons _ _ _ _
    rw [hWhole, List.forall_mem_cons]
    constructor
    · intro h
      obtain ⟨token, hToken, h⟩ := bind_eq_ok h
      obtain ⟨rest, hRest, h⟩ := bind_eq_ok h
      obtain ⟨hId, rfl⟩ := encode_eq_ok_iff.mp hToken
      obtain ⟨hIds, hUnsplit⟩ := ih.mp hRest
      cases h
      refine ⟨⟨hId, hIds⟩, ?_⟩
      rw [hUnsplit, String.toList_append, String.toList_append, String.toList_ofList,
        List.append_assoc]
    · rintro ⟨⟨hId, hIds⟩, hText⟩
      have hToken := encode_eq_ok_iff.mpr ⟨hId, rfl⟩
      have hRest : interleave next more
          = .ok (String.ofList (unsplit (next.toList, characters more))) := by
        rw [ih, String.toList_ofList]
        exact ⟨hIds, rfl⟩
      have hAll : first ++ String.ofList (ofId id.toList)
          ++ String.ofList (unsplit (next.toList, characters more)) = text := by
        rw [← String.toList_inj, ← hText, String.toList_append, String.toList_append,
          String.toList_ofList, String.toList_ofList, List.append_assoc]
      unfold interleave
      rw [hToken, hRest, ← hAll]
      rfl

theorem pieces_eq_iff_split :
    pieces text = (first, more) ↔ (first.toList, characters more) = split text.toList := by
  unfold pieces characters
  constructor
  · intro h
    obtain ⟨rfl, rfl⟩ := Prod.mk.inj h
    simp [Function.comp_def]
  · intro h
    rw [← h]
    simp [Function.comp_def]

/-- Cutting a text gives some pieces if and only if writing them gives the text and no token stands
in any of the texts between the tokens. -/
theorem pieces_eq_iff :
    pieces text = (first, more) ↔ interleave first more = .ok text
      ∧ IsTokenFree first ∧ ∀ part ∈ more, IsTokenFree part.2 := by
  rw [pieces_eq_iff_split, ← cuts_iff, interleave_eq_ok_iff, isTokenFree_iff]
  simp only [isTokenFree_iff]
  constructor
  · rintro ⟨hWhole, hIds, hFirst, hOthers⟩
    refine ⟨⟨fun part hMem => ?_, hWhole⟩, hFirst, fun part hMem => ?_⟩
    · exact hIds _ (List.mem_map_of_mem hMem)
    · exact hOthers _ (List.mem_map_of_mem hMem)
  · rintro ⟨⟨hIds, hWhole⟩, hFirst, hOthers⟩
    refine ⟨hWhole, fun part hMem => ?_, hFirst, fun part hMem => ?_⟩
    · obtain ⟨old, hOld, rfl⟩ := List.mem_map.mp hMem
      exact hIds old hOld
    · obtain ⟨old, hOld, rfl⟩ := List.mem_map.mp hMem
      exact hOthers old hOld

/-- A text without a token is its only piece. -/
theorem isTokenFree_iff_pieces : IsTokenFree text ↔ pieces text = (text, []) := by
  rw [pieces_eq_iff]
  constructor
  · intro h
    exact ⟨rfl, h, nofun⟩
  · rintro ⟨-, h, -⟩
    exact h

theorem findIds_eq (text : String) : findIds text = (pieces text).2.map (·.1) := by
  unfold findIds ids pieces
  rw [List.map_map, List.map_map]
  rfl

end Writing

/-- Scanning undoes writing: where identities have tokens and none stands in the texts between them,
what was written can be cut into just these texts and identities. Writing undoes scanning: every
text comes from its own pieces. And a single token is decoded to an identity if and only if it is
the token of that identity. -/
theorem scanning_inverts_writing :
    (∀ (first : String) (more : List (String × String)),
      (∀ part ∈ more, isId part.1.toList = true) → IsTokenFree first →
        (∀ part ∈ more, IsTokenFree part.2) →
          ∃ text, interleave first more = .ok text ∧ findIds text = more.map (·.1)
            ∧ pieces text = (first, more))
    ∧ (∀ text, interleave (pieces text).1 (pieces text).2 = .ok text
      ∧ IsTokenFree (pieces text).1 ∧ ∀ part ∈ (pieces text).2, IsTokenFree part.2)
    ∧ ∀ token id, decode token = .ok id ↔ encode id = .ok token := by
  refine ⟨fun first more hIds hFirst hMore => ?_, fun text => ?_, fun _ _ => decode_eq_ok_iff⟩
  · have hText : interleave first more
        = .ok (String.ofList (unsplit (first.toList, characters more))) := by
      rw [interleave_eq_ok_iff, String.toList_ofList]
      exact ⟨hIds, rfl⟩
    have hPieces := pieces_eq_iff.mpr ⟨hText, hFirst, hMore⟩
    exact ⟨_, hText, by rw [findIds_eq, hPieces], hPieces⟩
  · exact pieces_eq_iff.mp rfl

/-- A digit as often as an identity has digits. -/
def uniform (digit : Char) : String := String.ofList (List.replicate idLength digit)

/-- A marker with its digits but no end, a bare identity and further parts of tokens stay text
around two tokens. -/
theorem near_tokens_are_text :
    ∃ text, interleave ("\x02block:" ++ uniform '0')
        [(uniform 'a', "\x03" ++ uniform 'b' ++ "\x02\x02block:"), (uniform 'c', "c\x03")]
        = .ok text
      ∧ findIds text = [uniform 'a', uniform 'c']
      ∧ pieces text = ("\x02block:" ++ uniform '0',
        [(uniform 'a', "\x03" ++ uniform 'b' ++ "\x02\x02block:"), (uniform 'c', "c\x03")]) := by
  refine scanning_inverts_writing.1 _ _ (by decide +kernel) ?_ ?_
  · exact isTokenFree_iff_pieces.mpr (by decide +kernel)
  · intro part hMem
    simp only [List.mem_cons, List.not_mem_nil, or_false] at hMem
    obtain rfl | rfl := hMem
    · exact isTokenFree_iff_pieces.mpr (by decide +kernel)
    · exact isTokenFree_iff_pieces.mpr (by decide +kernel)

end PageBlocks.Token
