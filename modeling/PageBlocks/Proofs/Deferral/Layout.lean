import PageBlocks.Block.Rendering
import PageBlocks.Fragment.Tag
import PageBlocks.Proofs.Deferral.Values
import PageBlocks.Proofs.Tokens

/-!
# How texts with tags are laid out

As long as nothing takes a text apart, every STX in it starts the opening of a token or a complete
tag (`Laid`). That much is kept by putting texts together, by cutting them at tokens and by
escaping. A text laid out without tags holds no opening marker of a tag (`isMarked_eq_false`), one
that holds no marker is laid out without tags (`Laid.of_not_isMarked`), and cutting at tags finds
the tags that were put in (`laid_splitTags`).
-/

set_option autoImplicit false

namespace PageBlocks.Deferral

open PageBlocks.Text

/-- What a tag with a clean kind and clean arguments carries. -/
def IsPayload (payload : List Char) : Prop :=
  ∃ (kind : Value) (arguments : List Value), kind.isClean = true
    ∧ Value.areClean arguments = true ∧ Fragment.payload? kind arguments = some payload

/-- A text in which every STX starts the opening of a token or, if there may be tags, a tag. -/
inductive Laid : Bool → List Char → Prop where
  | nil {tags : Bool} : Laid tags []
  | char {tags : Bool} {c : Char} {cs : List Char} (hChar : c ≠ '\x02') (h : Laid tags cs) :
      Laid tags (c :: cs)
  | block {tags : Bool} {cs : List Char} (h : Laid tags cs) : Laid tags (Token.opening ++ cs)
  | tag {payload cs : List Char} (hPayload : IsPayload payload) (h : Laid true cs) :
      Laid true (Fragment.tagOf payload ++ cs)

/-! ## Payloads -/

/-- The characters that payloads are written with. -/
def isSymbol (c : Char) : Bool := c.isAlphanum || c == '+' || c == '/' || c == '='

theorem isSymbol_symbol {n : Nat} (h : n < 64) : isSymbol (Base64.symbol n) = true := by
  have table : ∀ m : Fin 64, isSymbol (Base64.symbol m.val) = true := by decide
  exact table ⟨n, h⟩

theorem isSymbol_of_mem_encode {bytes : Bytes} :
    ∀ c ∈ Base64.encode bytes, isSymbol c = true := by
  have hFill : isSymbol '=' = true := by decide
  induction bytes using Base64.encode.induct with
  | case1 => exact fun c hMem => absurd hMem List.not_mem_nil
  | case2 a =>
    have ha := a.toNat_lt
    simp only [Base64.encode, List.forall_mem_cons, hFill, true_and]
    exact ⟨isSymbol_symbol (by omega), isSymbol_symbol (by omega),
      fun c hMem => absurd hMem List.not_mem_nil⟩
  | case3 a b =>
    have ha := a.toNat_lt
    have hb := b.toNat_lt
    simp only [Base64.encode, List.forall_mem_cons, hFill, true_and]
    exact ⟨isSymbol_symbol (by omega), isSymbol_symbol (by omega), isSymbol_symbol (by omega),
      fun c hMem => absurd hMem List.not_mem_nil⟩
  | case4 a b c rest ih =>
    have ha := a.toNat_lt
    have hb := b.toNat_lt
    have hc := c.toNat_lt
    simp only [Base64.encode, List.forall_mem_cons]
    exact ⟨isSymbol_symbol (by omega), isSymbol_symbol (by omega), isSymbol_symbol (by omega),
      isSymbol_symbol (by omega), ih⟩

theorem IsPayload.isSymbol {payload : List Char} (h : IsPayload payload) :
    ∀ c ∈ payload, isSymbol c = true := by
  obtain ⟨kind, arguments, -, -, hPayload⟩ := h
  obtain ⟨written, -, rfl⟩ := Option.map_eq_some_iff.mp hPayload
  exact isSymbol_of_mem_encode

theorem IsPayload.clean {payload : List Char} (h : IsPayload payload) : Clean payload :=
  clean_of_forall h.isSymbol (by decide)

theorem IsPayload.not_closing {payload : List Char} (h : IsPayload payload) :
    '\x03' ∉ payload := by
  intro hMem
  exact absurd (h.isSymbol _ hMem) (by decide)

/-! ## Putting texts together -/

namespace Laid

variable {tags : Bool} {cs ds : List Char}

theorem tagged (h : Laid tags cs) : Laid true cs := by
  induction h with
  | nil => exact .nil
  | char hChar _ ih => exact .char hChar ih
  | block _ ih => exact .block ih
  | tag hPayload _ ih => exact .tag hPayload ih

/-- A text may be laid out with tags where it is laid out without. -/
theorem mono {more : Bool} (h : Laid tags cs) (hMore : tags = true → more = true) :
    Laid more cs := by
  cases more with
  | true => exact h.tagged
  | false =>
    cases tags with
    | true => exact absurd (hMore rfl) (by decide)
    | false => exact h

theorem append (h : Laid tags cs) (h' : Laid tags ds) : Laid tags (cs ++ ds) := by
  induction h with
  | nil => exact h'
  | char hChar _ ih => exact .char hChar (ih h')
  | block _ ih =>
    rw [List.append_assoc]
    exact .block (ih h')
  | tag hPayload _ ih =>
    rw [List.append_assoc]
    exact .tag hPayload (ih h')

theorem of_clean (h : Clean cs) : Laid tags cs := by
  induction cs with
  | nil => exact .nil
  | cons c cs ih =>
    obtain ⟨hChar, hRest⟩ := clean_cons.mp h
    exact .char hChar (ih hRest)

/-- Clean text in front can be taken away. -/
theorem of_cons {c : Char} (h : Laid tags (c :: cs)) (hChar : c ≠ '\x02') : Laid tags cs := by
  generalize hText : c :: cs = text at h
  cases h with
  | nil => cases hText
  | char _ h =>
    cases hText
    exact h
  | block _ =>
    cases hText
    exact absurd rfl hChar
  | tag _ _ =>
    cases hText
    exact absurd rfl hChar

theorem of_append_clean (h : Laid tags (cs ++ ds)) (hClean : Clean cs) : Laid tags ds := by
  induction cs with
  | nil => exact h
  | cons c cs ih =>
    obtain ⟨hChar, hRest⟩ := clean_cons.mp hClean
    exact ih (h.of_cons hChar) hRest

end Laid

theorem clean_id {id : List Char} (h : Token.isId id = true) : Clean id := by
  simp only [Token.isId, Bool.and_eq_true, List.all_eq_true] at h
  exact clean_of_forall h.2 (by decide)

theorem laid_ofId {tags : Bool} {id : List Char} (h : Clean id) : Laid tags (Token.ofId id) := by
  have hRest : Clean (id ++ [Token.closing]) := clean_append.mpr ⟨h, by decide⟩
  have hShape : Token.ofId id = Token.opening ++ (id ++ [Token.closing]) :=
    List.append_assoc _ _ _
  rw [hShape]
  exact .block (.of_clean hRest)

/-! ## Cutting at tokens -/

/-- Whether the text of each part is laid out and each identity is one. -/
def LaidParts (tags : Bool) (parts : List Char × List (List Char × List Char)) : Prop :=
  Laid tags parts.1 ∧ ∀ part ∈ parts.2, Clean part.1 ∧ Laid tags part.2

theorem laid_splitTokens {tags : Bool} {cs : List Char} (h : Laid tags cs) :
    LaidParts tags (Token.split cs) := by
  induction h with
  | nil =>
    rw [Token.split_nil]
    exact ⟨.nil, fun part hMem => absurd hMem List.not_mem_nil⟩
  | char hChar _ ih =>
    rw [Token.split_cons_of_ne _ hChar]
    exact ⟨.char hChar ih.1, ih.2⟩
  | @block tags cs h ih =>
    cases hLeading : Token.leading? (Token.opening ++ cs) with
    | some found =>
      obtain ⟨id, rest⟩ := found
      obtain ⟨hId, hShape⟩ := Token.eq_append_of_leading? hLeading
      -- the identity and the closing marker are clean, so the rest was cut as the rest of `cs`
      have hRest : cs = id ++ [Token.closing] ++ rest := by
        have hSame : Token.opening ++ cs = Token.opening ++ (id ++ [Token.closing] ++ rest) := by
          rw [hShape, Token.ofId]
          simp
        exact List.append_cancel_left hSame
      have hFront : Clean (id ++ [Token.closing]) :=
        clean_append.mpr ⟨clean_id hId, by decide⟩
      rw [hRest, Token.split_append_of_clean rest hFront] at ih
      rw [hShape, Token.split_ofId rest hId]
      refine ⟨.nil, fun part hMem => ?_⟩
      rcases List.mem_cons.mp hMem with rfl | hMem
      · exact ⟨clean_id hId, ih.1.of_append_clean hFront⟩
      · exact ih.2 part hMem
    | none =>
      have hClean : Clean "block:".toList := by decide
      have hBehind : Token.split (Token.opening ++ cs)
          = (Token.opening ++ (Token.split cs).1, (Token.split cs).2) :=
        Token.split_stray hLeading hClean
      rw [hBehind]
      exact ⟨.block ih.1, ih.2⟩
  | @tag payload cs hPayload h ih =>
    have hNone : Token.leading? (Fragment.tagOf payload ++ cs) = none := by
      have hAfter : after? Token.opening (Fragment.tagOf payload ++ cs) = none := rfl
      simp only [Token.leading?, hAfter]
    have hClean : Clean ("defer:".toList ++ payload ++ Fragment.closing) :=
      clean_append.mpr ⟨clean_append.mpr ⟨by decide, hPayload.clean⟩, by decide⟩
    have hBehind : Token.split (Fragment.tagOf payload ++ cs)
        = (Fragment.tagOf payload ++ (Token.split cs).1, (Token.split cs).2) :=
      Token.split_stray hNone hClean
    rw [hBehind]
    exact ⟨.tag hPayload ih.1, ih.2⟩

/-! ## Escaping -/

theorem clean_escapeChar {c : Char} (h : c ≠ '\x02') : Clean (Markup.escapeChar c) := by
  unfold Markup.escapeChar
  split
  · decide
  · split
    · decide
    · split
      · decide
      · split
        · decide
        · split
          · decide
          · exact clean_cons.mpr ⟨h, clean_nil⟩

theorem clean_escape {cs : List Char} (h : Clean cs) : Clean (Markup.escape cs) := by
  refine clean_flatMap fun c hMem => clean_escapeChar ?_
  rintro rfl
  exact h hMem

theorem escape_of_isSymbol {cs : List Char} (h : ∀ c ∈ cs, isSymbol c = true) :
    Markup.escape cs = cs := by
  induction cs with
  | nil => rfl
  | cons c cs ih =>
    obtain ⟨hChar, hRest⟩ := List.forall_mem_cons.mp h
    have hKept : Markup.escapeChar c = [c] := by
      have hTable : (['&', '<', '>', '\x27', '\x22'].all fun d => !isSymbol d) = true := by decide
      have hNot : ∀ special ∈ ['&', '<', '>', '\x27', '\x22'], c ≠ special := by
        intro special hSpecial hSame
        have hOther := List.all_eq_true.mp hTable special hSpecial
        rw [← hSame, hChar] at hOther
        cases hOther
      simp only [List.forall_mem_cons] at hNot
      obtain ⟨h₁, h₂, h₃, h₄, h₅, -⟩ := hNot
      rw [Markup.escapeChar, if_neg h₁, if_neg h₂, if_neg h₃, if_neg h₄, if_neg h₅]
    have hStep : Markup.escape (c :: cs) = Markup.escapeChar c ++ Markup.escape cs := rfl
    rw [hStep, hKept, ih hRest]
    rfl

theorem Laid.escape {tags : Bool} {cs : List Char} (h : Laid tags cs) :
    Laid tags (Markup.escape cs) := by
  induction h with
  | nil => exact .nil
  | char hChar _ ih => exact (Laid.of_clean (clean_escapeChar hChar)).append ih
  | block _ ih =>
    rw [Markup.escape_append]
    exact .block ih
  | @tag payload cs hPayload _ ih =>
    have hTag : Markup.escape (Fragment.tagOf payload) = Fragment.tagOf payload := by
      rw [Fragment.tagOf, Markup.escape_append, Markup.escape_append,
        escape_of_isSymbol hPayload.isSymbol]
      rfl
    rw [Markup.escape_append, hTag]
    exact .tag hPayload ih

/-! ## Searching for tags -/

theorem cut?_cons_of_none {word cs : List Char} {c : Char} (h : after? word (c :: cs) = none) :
    cut? word (c :: cs) = (cut? word cs).map fun parts => (c :: parts.1, parts.2) := by
  rw [cut?, h]

theorem after?_opening_of_ne {c : Char} (cs : List Char) (h : c ≠ '\x02') :
    after? Fragment.opening (c :: cs) = none := by
  simp [Fragment.opening, after?, Ne.symm h]

/-- The search for an opening marker goes over clean text. -/
theorem cut?_append_of_clean {text : List Char} (cs : List Char) (h : Clean text) :
    cut? Fragment.opening (text ++ cs)
      = (cut? Fragment.opening cs).map fun parts => (text ++ parts.1, parts.2) := by
  induction text with
  | nil => simp
  | cons c text ih =>
    obtain ⟨hChar, hRest⟩ := clean_cons.mp h
    rw [List.cons_append, cut?_cons_of_none (after?_opening_of_ne _ hChar), ih hRest,
      Option.map_map]
    rfl

theorem cut?_block (cs : List Char) :
    cut? Fragment.opening (Token.opening ++ cs)
      = (cut? Fragment.opening cs).map fun parts => (Token.opening ++ parts.1, parts.2) := by
  have hClean : Clean "block:".toList := by decide
  have hFirst : cut? Fragment.opening ('\x02' :: ("block:".toList ++ cs))
      = (cut? Fragment.opening ("block:".toList ++ cs)).map
        fun parts => ('\x02' :: parts.1, parts.2) := cut?_cons_of_none rfl
  rw [cut?_append_of_clean cs hClean, Option.map_map] at hFirst
  exact hFirst

theorem cut?_tag (payload cs : List Char) :
    cut? Fragment.opening (Fragment.tagOf payload ++ cs)
      = some ([], payload ++ Fragment.closing ++ cs) := by
  have hShape : Fragment.tagOf payload ++ cs
      = Fragment.opening ++ (payload ++ Fragment.closing ++ cs) := by
    simp [Fragment.tagOf]
  have hAfter := after?_append Fragment.opening (payload ++ Fragment.closing ++ cs)
  have hCons : ∀ ds : List Char, after? Fragment.opening (Fragment.opening ++ ds) = some ds →
      cut? Fragment.opening (Fragment.opening ++ ds) = some ([], ds) := by
    intro ds h
    rw [Fragment.opening, List.cons_append] at h ⊢
    rw [cut?, h]
  rw [hShape, hCons _ hAfter]

/-- The closing marker of a tag is the first one behind its opening. -/
theorem cut?_closing {payload : List Char} (cs : List Char) (h : '\x03' ∉ payload) :
    cut? Fragment.closing (payload ++ Fragment.closing ++ cs) = some (payload, cs) := by
  induction payload with
  | nil => rfl
  | cons c payload ih =>
    simp only [List.mem_cons, not_or] at h
    have hNone : after? Fragment.closing (c :: (payload ++ Fragment.closing ++ cs)) = none := by
      simp [Fragment.closing, after?, h.1]
    rw [List.cons_append, List.cons_append, cut?_cons_of_none hNone, ih h.2]
    rfl

/-- A text laid out without tags holds no opening marker of one. -/
theorem cut?_eq_none {cs : List Char} (h : Laid false cs) : cut? Fragment.opening cs = none := by
  generalize hTags : false = tags at h
  induction h with
  | nil => rfl
  | char hChar _ ih =>
    rw [cut?_cons_of_none (after?_opening_of_ne _ hChar), ih hTags]
    rfl
  | block _ ih =>
    rw [cut?_block, ih hTags]
    rfl
  | tag _ _ _ => cases hTags

theorem isMarked_eq_false {text : String} (h : Laid false text.toList) :
    Fragment.isMarked text = false := by
  rw [Fragment.isMarked, occurs, cut?_eq_none h]
  rfl

/-- Tags are the only way to have an opening marker. -/
theorem Laid.of_cut?_eq_none {tags : Bool} {cs : List Char} (h : Laid tags cs)
    (hNone : cut? Fragment.opening cs = none) : Laid false cs := by
  induction h with
  | nil => exact .nil
  | char hChar _ ih =>
    rw [cut?_cons_of_none (after?_opening_of_ne _ hChar), Option.map_eq_none_iff] at hNone
    exact .char hChar (ih hNone)
  | block _ ih =>
    rw [cut?_block, Option.map_eq_none_iff] at hNone
    exact .block (ih hNone)
  | tag _ _ _ =>
    rw [cut?_tag] at hNone
    cases hNone

theorem Laid.of_not_isMarked {tags : Bool} {text : String} (h : Laid tags text.toList)
    (hNot : Fragment.isMarked text = false) : Laid false text.toList := by
  refine h.of_cut?_eq_none ?_
  rw [Fragment.isMarked, occurs, Option.isSome_eq_false_iff, Option.isNone_iff_eq_none] at hNot
  exact hNot

/-! ## Cutting at tags -/

/-- Whether the text of each part is laid out without tags and each payload is one. -/
def LaidTags (parts : List Char × List (List Char × List Char)) : Prop :=
  Laid false parts.1 ∧ ∀ part ∈ parts.2, IsPayload part.1 ∧ Laid false part.2

theorem splitTags_of_first? {cs before payload behind : List Char}
    (h : Fragment.first? cs = some (before, payload, behind)) :
    Fragment.split cs
      = (before, (payload, (Fragment.split behind).1) :: (Fragment.split behind).2) := by
  rw [Fragment.split]
  split
  · rename_i before' payload' behind' hSome
    rw [h] at hSome
    cases hSome
    rfl
  · rename_i hNone
    rw [h] at hNone
    cases hNone

theorem splitTags_of_first?_eq_none {cs : List Char} (h : Fragment.first? cs = none) :
    Fragment.split cs = (cs, []) := by
  rw [Fragment.split]
  split
  · rename_i before payload behind hSome
    rw [h] at hSome
    cases hSome
  · rfl

/-- Text in front of which no tag starts stays with the text behind it. -/
theorem splitTags_append {text cs : List Char}
    (h : cut? Fragment.opening (text ++ cs)
      = (cut? Fragment.opening cs).map fun parts => (text ++ parts.1, parts.2)) :
    Fragment.split (text ++ cs)
      = (text ++ (Fragment.split cs).1, (Fragment.split cs).2) := by
  have hFirst : Fragment.first? (text ++ cs)
      = (Fragment.first? cs).map fun parts => (text ++ parts.1, parts.2) := by
    simp only [Fragment.first?, h]
    cases cut? Fragment.opening cs with
    | none => rfl
    | some parts =>
      obtain ⟨before, rest⟩ := parts
      simp only [Option.map_some, Option.bind_eq_bind, Option.bind_some]
      cases cut? Fragment.closing rest <;> rfl
  cases hFound : Fragment.first? cs with
  | none =>
    rw [hFound] at hFirst
    rw [splitTags_of_first?_eq_none hFirst, splitTags_of_first?_eq_none hFound]
  | some parts =>
    obtain ⟨before, payload, behind⟩ := parts
    rw [hFound] at hFirst
    rw [splitTags_of_first? hFirst, splitTags_of_first? hFound]

/-- A tag is cut out. -/
theorem splitTags_tag {payload : List Char} (cs : List Char) (h : '\x03' ∉ payload) :
    Fragment.split (Fragment.tagOf payload ++ cs)
      = ([], (payload, (Fragment.split cs).1) :: (Fragment.split cs).2) := by
  refine splitTags_of_first? ?_
  simp only [Fragment.first?, cut?_tag, Option.bind_eq_bind, Option.bind_some, cut?_closing cs h]
  rfl

/-- Cutting at tags finds the tags that were put in. -/
theorem laid_splitTags {tags : Bool} {cs : List Char} (h : Laid tags cs) :
    LaidTags (Fragment.split cs) := by
  induction h with
  | nil =>
    rw [Fragment.split]
    exact ⟨.nil, fun part hMem => absurd hMem List.not_mem_nil⟩
  | @char tags c cs hChar _ ih =>
    have hClean : Clean [c] := clean_cons.mpr ⟨hChar, clean_nil⟩
    have hSplit := splitTags_append (cut?_append_of_clean cs hClean)
    rw [List.singleton_append] at hSplit
    rw [hSplit]
    exact ⟨.char hChar ih.1, ih.2⟩
  | block _ ih =>
    rw [splitTags_append (cut?_block _)]
    exact ⟨.block ih.1, ih.2⟩
  | tag hPayload _ ih =>
    rw [splitTags_tag _ hPayload.not_closing]
    refine ⟨.nil, fun part hMem => ?_⟩
    rcases List.mem_cons.mp hMem with rfl | hMem
    · exact ⟨hPayload, ih.1⟩
    · exact ih.2 part hMem

end PageBlocks.Deferral
