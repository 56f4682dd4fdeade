import PageBlocks.Proofs.Substitution
import PageBlocks.Proofs.Trees

/-!
# Markup blocks and plain ones

A markup block cuts its content at the tokens, transforms the pieces between them and puts
everything together again; a plain one replaces tokens where they stand. Escaping changes five
characters of which none stands in a token, and writes none that a token could start with, so that
a content and its escaped form are cut at the same tokens (`Token.split_escape`). Main statement: a
block that transforms nothing, or escapes, is rendered like the plain block with the same children
and the content as it is, or escaped as a whole (`Outline.render_markup`).
-/

set_option autoImplicit false

namespace PageBlocks

/-! ## Escaped tokens -/

namespace Token

open PageBlocks.Markup

/-- The characters that are written as references. -/
def references : List Char := ['&', '<', '>', '\x27', '\x22']

theorem escapeChar_of_not_mem {c : Char} (h : c ∉ references) : escapeChar c = [c] := by
  simp only [references, List.mem_cons, List.not_mem_nil, or_false, not_or] at h
  obtain ⟨hAmpersand, hLess, hGreater, hSingle, hDouble⟩ := h
  rw [escapeChar, if_neg hAmpersand, if_neg hLess, if_neg hGreater, if_neg hSingle, if_neg hDouble]

/-- A reference starts with an ampersand, and there is no STX in it. -/
theorem escapeChar_of_mem {c : Char} (h : c ∈ references) :
    ∃ more, escapeChar c = '&' :: more ∧ '\x02' ∉ escapeChar c := by
  simp only [references, List.mem_cons, List.not_mem_nil, or_false] at h
  rcases h with rfl | rfl | rfl | rfl | rfl <;> exact ⟨_, rfl, by decide⟩

theorem escape_cons (c : Char) (cs : List Char) :
    escape (c :: cs) = escapeChar c ++ escape cs := rfl

theorem escape_of_forall_not_mem {cs : List Char} (h : ∀ c ∈ cs, c ∉ references) :
    escape cs = cs := by
  induction cs with
  | nil => rfl
  | cons c cs ih =>
    obtain ⟨hChar, hRest⟩ := List.forall_mem_cons.mp h
    rw [escape_cons, escapeChar_of_not_mem hChar, ih hRest, List.singleton_append]

/-- A token is made of characters that escaping leaves alone. -/
theorem not_mem_references_of_mem_ofId {id : List Char} (hId : isId id = true) :
    ∀ c ∈ ofId id, c ∉ references := by
  have hDigits : (references.all fun special => !Text.Hex.isDigit special) = true := by decide
  have hMarks : ((opening ++ [closing]).all fun c => !references.contains c) = true := by decide
  rw [List.all_eq_true] at hDigits hMarks
  rw [isId, Bool.and_eq_true, List.all_eq_true] at hId
  intro c hMem hSpecial
  have hNotMark : c ∉ opening ++ [closing] := by
    intro hMark
    have hKept := hMarks c hMark
    rw [List.contains_iff_mem.mpr hSpecial] at hKept
    cases hKept
  simp only [ofId, List.mem_append] at hMem
  rcases hMem with (hOpening | hHex) | hClosing
  · exact hNotMark (List.mem_append_left _ hOpening)
  · have hNoDigit := hDigits c hSpecial
    rw [hId.2 c hHex] at hNoDigit
    cases hNoDigit
  · exact hNotMark (List.mem_append_right _ hClosing)

/-- What starts an escaped text without being changed starts the text. -/
theorem prefix_of_prefix_escape {word cs : List Char} (hWord : ∀ c ∈ word, c ∉ references)
    (h : word <+: escape cs) : word <+: cs := by
  induction word generalizing cs with
  | nil => exact List.nil_prefix
  | cons w word ih =>
    obtain ⟨hFirst, hRest⟩ := List.forall_mem_cons.mp hWord
    cases cs with
    | nil => exact absurd (List.prefix_nil.mp h) (List.cons_ne_nil _ _)
    | cons c cs =>
      rw [escape_cons] at h
      by_cases hChar : c ∈ references
      · obtain ⟨more, hMore, -⟩ := escapeChar_of_mem hChar
        rw [hMore, List.cons_append] at h
        obtain ⟨rfl, -⟩ := List.cons_prefix_cons.mp h
        exact absurd (by decide) hFirst
      · rw [escapeChar_of_not_mem hChar, List.singleton_append] at h
        obtain ⟨rfl, hPrefix⟩ := List.cons_prefix_cons.mp h
        exact List.cons_prefix_cons.mpr ⟨rfl, ih hRest hPrefix⟩

/-- A token that stands behind characters of which none is an STX starts behind them. -/
theorem hasToken_of_append {before cs : List Char} (hBefore : '\x02' ∉ before)
    (h : HasToken (before ++ cs)) : HasToken cs := by
  induction before with
  | nil => exact h
  | cons c before ih =>
    simp only [List.mem_cons, not_or] at hBefore
    rw [List.cons_append, hasToken_cons_iff] at h
    rcases h with ⟨id, -, hPrefix⟩ | hLater
    · exact absurd (List.cons_prefix_cons.mp hPrefix).1 hBefore.1
    · exact ih hBefore.2 hLater

/-- Escaping makes no token. -/
theorem hasToken_of_escape {cs : List Char} (h : HasToken (escape cs)) : HasToken cs := by
  induction cs with
  | nil => exact absurd h not_hasToken_nil
  | cons c cs ih =>
    rw [hasToken_cons_iff]
    by_cases hChar : c ∈ references
    · obtain ⟨-, -, hNone⟩ := escapeChar_of_mem hChar
      exact .inr (ih (hasToken_of_append hNone h))
    · have hKept : escape (c :: cs) = c :: escape cs := by
        rw [escape_cons, escapeChar_of_not_mem hChar, List.singleton_append]
      have hCons := h
      rw [hKept, hasToken_cons_iff] at hCons
      rcases hCons with ⟨id, hId, hPrefix⟩ | hLater
      · rw [← hKept] at hPrefix
        exact .inl ⟨id, hId,
          prefix_of_prefix_escape (not_mem_references_of_mem_ofId hId) hPrefix⟩
      · exact .inr (ih hLater)

/-- An escaped text is cut at the tokens of the text, into its escaped pieces. -/
theorem split_escape (cs : List Char) :
    split (escape cs)
      = (escape (split cs).1, (split cs).2.map fun part => (part.1, escape part.2)) := by
  have hCuts := cuts_split cs
  refine (cuts_iff.mp ⟨?_, ?_, ?_, ?_⟩).symm
  · have hTokens : ∀ parts : List (List Char × List Char), (∀ part ∈ parts, isId part.1 = true) →
        (parts.map fun part => (part.1, escape part.2)).flatMap
            (fun part => ofId part.1 ++ part.2)
          = escape (parts.flatMap fun part => ofId part.1 ++ part.2) := by
      intro parts hIds
      induction parts with
      | nil => rfl
      | cons part parts ih =>
        obtain ⟨hId, hRest⟩ := List.forall_mem_cons.mp hIds
        rw [List.map_cons, List.flatMap_cons, List.flatMap_cons, ih hRest, escape_append,
          escape_append, escape_of_forall_not_mem (not_mem_references_of_mem_ofId hId)]
    have hWhole : escape cs = escape (unsplit (split cs)) := by rw [hCuts.whole]
    rw [hWhole, unsplit, unsplit, escape_append, hTokens _ hCuts.ids]
  · intro part hMem
    obtain ⟨old, hOld, rfl⟩ := List.mem_map.mp hMem
    exact hCuts.ids old hOld
  · exact fun hToken => hCuts.first (hasToken_of_escape hToken)
  · intro part hMem hToken
    obtain ⟨old, hOld, rfl⟩ := List.mem_map.mp hMem
    exact hCuts.others old hOld (hasToken_of_escape hToken)

end Token

/-! ## Splicing -/

namespace Block

/-- The plain block with the children of a block and a content of its own. -/
def toPlain (b : Block) (content : String) : Block :=
  { b with kind := .plain, transform := none, content }

theorem shape_toPlain (b : Block) (content : String) : (b.toPlain content).shape = String.ofList :=
  shape_of_ne_markup nofun

/-- A block whose pieces are shaped by a function that goes along with the cut of the content is
spliced like the plain block with the whole content treated so. -/
theorem splice_toPlain {b : Block} {content : String} {treat : List Char → List Char}
    (hShape : ∀ piece, b.shape piece = String.ofList (treat piece))
    (hSplit : Token.split content.toList
      = (treat (Token.split b.content.toList).1,
        (Token.split b.content.toList).2.map fun part => (part.1, treat part.2)))
    (rendered : Table String String) :
    (b.toPlain content).splice rendered = b.splice rendered := by
  have hContent : (b.toPlain content).content = content := rfl
  rw [splice_eq_foldl, splice_eq_foldl, shape_toPlain, hContent, hSplit, List.foldl_map]
  simp only [hShape]

/-- A transform that changes no text changes no piece. -/
theorem shape_of_identity {b : Block} {t : Transform} (hTransform : b.transform = some t)
    (h : ∀ s, t.apply s = s) (piece : List Char) : b.shape piece = String.ofList piece := by
  unfold shape
  split
  · rename_i found _ hFound
    obtain rfl : t = found := Option.some.inj (hTransform.symm.trans hFound)
    rw [h]
    cases piece <;> rfl
  · rfl

theorem shape_of_escape {b : Block} (hKind : b.kind = .markup)
    (hTransform : b.transform = some .escape) (piece : List Char) :
    b.shape piece = String.ofList (Markup.escape piece) := by
  rw [shape, hKind, hTransform]
  dsimp only [Transform.apply]
  rw [String.toList_ofList]
  cases piece <;> rfl

theorem splice_of_identity {b : Block} {t : Transform} (hTransform : b.transform = some t)
    (h : ∀ s, t.apply s = s) (rendered : Table String String) :
    (b.toPlain b.content).splice rendered = b.splice rendered := by
  refine splice_toPlain (shape_of_identity hTransform h) ?_ rendered
  simp

theorem splice_of_escape {b : Block} (hKind : b.kind = .markup)
    (hTransform : b.transform = some .escape) (rendered : Table String String) :
    (b.toPlain (String.ofList (Markup.escape b.content.toList))).splice rendered
      = b.splice rendered := by
  refine splice_toPlain (shape_of_escape hKind hTransform) ?_ rendered
  rw [String.toList_ofList, Token.split_escape]

end Block

/-! ## Rendering -/

namespace Outline

open PageBlocks.Cache

/-- Two blocks that rendering cannot tell apart. -/
structure SameOutput (b c : Block) : Prop where
  id : c.id = b.id
  lifetime : c.lifetime = b.lifetime
  children : c.children = b.children
  cacheable : c.kind = .cacheable ↔ b.kind = .cacheable
  splice : ∀ rendered, c.splice rendered = b.splice rendered

theorem SameOutput.refl (b : Block) : SameOutput b b :=
  ⟨rfl, rfl, rfl, Iff.rfl, fun _ => rfl⟩

/-- Outlines of which no block can be told from the block of the same number. -/
def SameBlocks (o o' : Outline) : Prop :=
  ∀ i, match o.block? i, o'.block? i with
    | some b, some c => SameOutput b c
    | none, none => True
    | _, _ => False

section

variable {o o' : Outline}

theorem compose_same (h : SameBlocks o o') {render render' : Nat → VaultM String}
    (hRender : ∀ j, render' j = render j) {b c : Block} (hSame : SameOutput b c) :
    compose render' o' c = compose render o b := by
  have hChild : ∀ j, childOutput render' o' j = childOutput render o j := by
    intro j
    have hBlocks := h j
    unfold childOutput
    split at hBlocks
    · rename_i child child' hBlock hBlock'
      rw [hBlock, hBlock', hRender j]
      dsimp only
      rw [hBlocks.id]
    · rename_i hBlock hBlock'
      rw [hBlock, hBlock']
    · exact hBlocks.elim
  rw [compose_eq, compose_eq, hSame.children, funext hChild]
  simp only [hSame.splice]

theorem renderStep_same (h : SameBlocks o o') {render render' : Nat → VaultM String}
    (hRender : ∀ j, render' j = render j) (memo : Option Memo) (i : Nat) :
    renderStep memo o' render' i = renderStep memo o render i := by
  have hBlocks := h i
  unfold renderStep
  split at hBlocks
  · rename_i b c hBlock hBlock'
    have hComposed := compose_same h hRender hBlocks
    rw [hBlock, hBlock']
    dsimp only
    by_cases hKind : b.kind = .cacheable
    · rw [hKind, hBlocks.cacheable.mpr hKind, hComposed]
      cases memo with
      | none => rfl
      | some memo =>
        dsimp only [remembered]
        rw [hBlocks.id, hBlocks.lifetime]
    · have hKind' := fun hSame => hKind (hBlocks.cacheable.mp hSame)
      rw [hComposed]
      split
      · exact absurd ‹_› hKind'
      · split
        · exact absurd ‹_› hKind
        · rfl
  · rename_i hBlock hBlock'
    rw [hBlock, hBlock']
  · exact hBlocks.elim

theorem renderFrom_same (h : SameBlocks o o') (memo : Option Memo) (depth i : Nat) :
    renderFrom depth memo o' i = renderFrom depth memo o i := by
  induction depth generalizing i with
  | zero => rfl
  | succ depth ih =>
    rw [renderFrom_succ, renderFrom_succ]
    exact renderStep_same h ih memo i

/-- Replacing a block by one that rendering cannot tell from it changes no output. -/
theorem render_update_of_sameOutput {i : Nat} {b c : Block} (hBlock : o.block? i = some b)
    (hSame : SameOutput b c) (memo : Option Memo) (j : Nat) :
    (o.update i fun _ => c).render memo j = o.render memo j := by
  have hBlocks : SameBlocks o (o.update i fun _ => c) := by
    intro k
    by_cases hk : k = i
    · subst hk
      rw [block?_update_self, hBlock]
      exact hSame
    · rw [block?_update_of_ne o _ hk]
      cases o.block? k with
      | none => trivial
      | some old => exact SameOutput.refl old
  unfold render
  rw [length_update]
  exact renderFrom_same hBlocks memo _ j

end

theorem sameOutput_toPlain {b : Block} {content : String} (hKind : b.kind = .markup)
    (h : ∀ rendered, (b.toPlain content).splice rendered = b.splice rendered) :
    SameOutput b (b.toPlain content) where
  id := rfl
  lifetime := rfl
  children := rfl
  cacheable := ⟨nofun, fun hCacheable => by rw [hKind] at hCacheable; cases hCacheable⟩
  splice := h

/-- A markup block and the outline that it stands in, whatever text, tokens and parts of tokens the
block holds, whatever its children give, and with any cache. If its transform changes no text,
everything is rendered as with the plain block of the same content and children in its place. If it
escapes, everything is rendered as with the plain block whose content is escaped as a whole. -/
theorem render_markup {o : Outline} {i : Nat} {b : Block} (hBlock : o.block? i = some b)
    (hKind : b.kind = .markup) (memo : Option Memo) (j : Nat) :
    (∀ t, b.transform = some t → (∀ s, t.apply s = s) →
        (∀ rendered, b.splice rendered = (b.toPlain b.content).splice rendered)
        ∧ o.render memo j = (o.update i fun _ => b.toPlain b.content).render memo j)
      ∧ (b.transform = some .escape →
        let escaped := String.ofList (Markup.escape b.content.toList)
        (∀ rendered, b.splice rendered = (b.toPlain escaped).splice rendered)
        ∧ o.render memo j = (o.update i fun _ => b.toPlain escaped).render memo j) := by
  constructor
  · intro t hTransform hIdentity
    have hSplice := Block.splice_of_identity hTransform hIdentity
    exact ⟨fun rendered => (hSplice rendered).symm,
      (render_update_of_sameOutput hBlock (sameOutput_toPlain hKind hSplice) memo j).symm⟩
  · intro hTransform
    have hSplice := Block.splice_of_escape hKind hTransform
    exact ⟨fun rendered => (hSplice rendered).symm,
      (render_update_of_sameOutput hBlock (sameOutput_toPlain hKind hSplice) memo j).symm⟩

/-- A block with a child, a token that stands for nothing and the beginning of another one, once
with a transform that keeps texts and once escaped. -/
theorem render_markup_note :
    let child : Block := { Block.plain "page" (.text "inner") with content := "<i>" }
    let stray := String.ofList (Token.ofId (List.replicate 40 'f') ++ Token.opening)
    let note : Block :=
      { Block.plain "page" (.text "note") with
        kind := .markup, transform := some .keep, children := [1]
        content := "a < b" ++ child.token ++ stray ++ "& more" }
    let escaped : Block := { note with transform := some .escape }
    let o : Outline := ⟨[note, child], []⟩
    let o' : Outline := ⟨[escaped, child], []⟩
    note.kind = .markup ∧ (∀ s, Transform.keep.apply s = s)
      ∧ o.render none 0 = (o.update 0 fun _ => note.toPlain note.content).render none 0
      ∧ o'.render none 0 = (o'.update 0 fun _ => escaped.toPlain
          (String.ofList (Markup.escape escaped.content.toList))).render none 0 := by
  intro child stray note escaped o o'
  have hKept := (render_markup (o := o) (i := 0) (b := note) rfl rfl none 0).1
  have hEscaped := (render_markup (o := o') (i := 0) (b := escaped) rfl rfl none 0).2
  exact ⟨rfl, fun _ => rfl, (hKept .keep rfl fun _ => rfl).2, (hEscaped rfl).2⟩

end Outline

end PageBlocks
