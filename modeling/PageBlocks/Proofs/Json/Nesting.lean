import PageBlocks.Proofs.Json.Grammar

/-!
# Braces and quotes of JSON texts

A scan of a text counts the braces that are open, but for those in strings (`Scan`). The text of a
map opens a brace, stays above it, and closes it with its last character (`exists_braces`). Hence no
such text is the end of another one: its opening brace would stand inside the other text, where it
either opens a brace that is never closed or is part of a string, and from inside a string all
quotes would be taken the wrong way round. So what stands in front of the text of a map is told
apart from it, without anything between them (`append_map_inj`).
-/

set_option autoImplicit false

namespace PageBlocks.Json

open PageBlocks.Number PageBlocks.Text

/-- Where a scan stands: outside of strings, within one, or behind a backslash in one. -/
inductive Place where
  | outside
  | within
  | escaped
  deriving DecidableEq

/-- The state of a scan: its place and the number of open braces. -/
structure Scan where
  place : Place
  depth : Nat

namespace Scan

/-- The scan behind one more character. Outside of strings there is no backslash, and no brace is
closed that is not open. -/
def next : Scan → Char → Option Scan
  | ⟨.outside, depth⟩, c =>
    if c = '\x22' then some ⟨.within, depth⟩
    else if c = '\x5c' then none
    else if c = '\x7b' then some ⟨.outside, depth + 1⟩
    else if c = '\x7d' then if depth = 0 then none else some ⟨.outside, depth - 1⟩
    else some ⟨.outside, depth⟩
  | ⟨.within, depth⟩, c =>
    if c = '\x22' then some ⟨.outside, depth⟩
    else if c = '\x5c' then some ⟨.escaped, depth⟩
    else some ⟨.within, depth⟩
  | ⟨.escaped, depth⟩, _ => some ⟨.within, depth⟩

/-- The scan behind a text. -/
def behind (s : Scan) (cs : List Char) : Option Scan := cs.foldlM next s

@[simp] theorem behind_cons (s : Scan) (c : Char) (cs : List Char) :
    s.behind (c :: cs) = (s.next c).bind fun s' => s'.behind cs := rfl

@[simp] theorem behind_append (s : Scan) (cs ds : List Char) :
    s.behind (cs ++ ds) = (s.behind cs).bind fun s' => s'.behind ds :=
  List.foldlM_append

/-- One of two scans is in a string and the other one in none. -/
def Opposite (s t : Scan) : Prop :=
  s.place = .outside ∧ t.place = .within ∨ s.place = .within ∧ t.place = .outside

theorem Opposite.symm {s t : Scan} (h : Opposite s t) : Opposite t s :=
  h.elim (fun h => .inr h.symm) fun h => .inl h.symm

/-- Outside of a string only a quote leads into one. -/
theorem next_outside {s : Scan} {depth : Nat} {c : Char} (h : next ⟨.outside, depth⟩ c = some s) :
    c ≠ '\x5c' ∧ s.place = if c = '\x22' then .within else .outside := by
  rw [next] at h
  by_cases hQuote : c = '\x22'
  · rw [if_pos hQuote, Option.some.injEq] at h
    rw [if_pos hQuote, ← h, hQuote]
    exact ⟨by decide, rfl⟩
  · rw [if_neg hQuote] at h
    rw [if_neg hQuote]
    split at h
    · cases h
    · rename_i hEscape
      refine ⟨hEscape, ?_⟩
      split at h
      · cases h
        rfl
      · split at h
        · split at h <;> cases h
          rfl
        · cases h
          rfl

/-- Within a string only a quote leads out of it. -/
theorem next_within {s : Scan} {depth : Nat} {c : Char} (hEscape : c ≠ '\x5c')
    (h : next ⟨.within, depth⟩ c = some s) :
    s.place = if c = '\x22' then .outside else .within := by
  rw [next] at h
  by_cases hQuote : c = '\x22'
  · rw [if_pos hQuote, Option.some.injEq] at h
    rw [if_pos hQuote, ← h]
  · rw [if_neg hQuote, if_neg hEscape, Option.some.injEq] at h
    rw [if_neg hQuote, ← h]

/-- Opposite scans stay opposite: a quote turns both, and a backslash ends the one outside. -/
theorem Opposite.next {s t s' t' : Scan} {c : Char} (h : Opposite s t) (hs : s.next c = some s')
    (ht : t.next c = some t') : Opposite s' t' := by
  have hTurn {j k : Nat} {s' t' : Scan} (hs : Scan.next ⟨.outside, j⟩ c = some s')
      (ht : Scan.next ⟨.within, k⟩ c = some t') : Opposite s' t' := by
    obtain ⟨hEscape, hPlace⟩ := next_outside hs
    have hPlace' := next_within hEscape ht
    by_cases hQuote : c = '\x22'
    · rw [if_pos hQuote] at hPlace hPlace'
      exact .inr ⟨hPlace, hPlace'⟩
    · rw [if_neg hQuote] at hPlace hPlace'
      exact .inl ⟨hPlace, hPlace'⟩
  obtain ⟨place, j⟩ := s
  obtain ⟨place', k⟩ := t
  rcases h with ⟨rfl, rfl⟩ | ⟨rfl, rfl⟩
  · exact hTurn hs ht
  · exact (hTurn ht hs).symm

theorem Opposite.behind {s t s' t' : Scan} {cs : List Char} (h : Opposite s t)
    (hs : s.behind cs = some s') (ht : t.behind cs = some t') : Opposite s' t' := by
  induction cs generalizing s t with
  | nil =>
    cases hs
    cases ht
    exact h
  | cons c cs ih =>
    rw [behind_cons, Option.bind_eq_some_iff] at hs ht
    obtain ⟨s₁, hFirst, hs⟩ := hs
    obtain ⟨t₁, hFirst', ht⟩ := ht
    exact ih (h.next hFirst hFirst') hs ht

end Scan

/-! ## Level texts -/

/-- Whether a text is scanned from outside of strings to there, with as many open braces. -/
def IsLevel (cs : List Char) : Prop :=
  ∀ depth, Scan.behind ⟨.outside, depth⟩ cs = some ⟨.outside, depth⟩

/-- Whether a text can stand in a string. -/
def IsInside (cs : List Char) : Prop :=
  ∀ depth, Scan.behind ⟨.within, depth⟩ cs = some ⟨.within, depth⟩

/-- The characters that mean nothing to a scan outside of strings. -/
def isPlain (c : Char) : Bool := c != '\x22' && c != '\x5c' && c != '\x7b' && c != '\x7d'

section Level

variable {cs ds : List Char}

theorem isLevel_nil : IsLevel [] := fun _ => rfl

theorem isInside_nil : IsInside [] := fun _ => rfl

theorem IsLevel.append (h : IsLevel cs) (hMore : IsLevel ds) : IsLevel (cs ++ ds) := by
  intro depth
  rw [Scan.behind_append, h depth]
  exact hMore depth

theorem IsLevel.cons {c : Char} (hPlain : isPlain c = true) (h : IsLevel cs) :
    IsLevel (c :: cs) := by
  intro depth
  simp only [isPlain, Bool.and_eq_true, bne_iff_ne] at hPlain
  obtain ⟨⟨⟨hQuote, hEscape⟩, hOpen⟩, hClose⟩ := hPlain
  rw [Scan.behind_cons, Scan.next, if_neg hQuote, if_neg hEscape, if_neg hOpen, if_neg hClose]
  exact h depth

theorem isLevel_of_plain (h : cs.all isPlain = true) : IsLevel cs := by
  induction cs with
  | nil => exact isLevel_nil
  | cons c cs ih =>
    rw [List.all_cons, Bool.and_eq_true] at h
    exact .cons h.1 (ih h.2)

/-- A character other than the quote and the backslash may stand in a string. -/
theorem IsInside.cons {c : Char} (hQuote : c ≠ '\x22') (hEscape : c ≠ '\x5c') (h : IsInside cs) :
    IsInside (c :: cs) := by
  intro depth
  rw [Scan.behind_cons, Scan.next, if_neg hQuote, if_neg hEscape]
  exact h depth

/-- So may any character behind a backslash. -/
theorem IsInside.escape (e : Char) (h : IsInside cs) : IsInside ('\x5c' :: e :: cs) := h

/-- A string is level, whatever braces are in it. -/
theorem IsInside.isLevel (h : IsInside cs) : IsLevel ('\x22' :: (cs ++ ['\x22'])) := by
  intro depth
  have hOpened : Scan.behind ⟨.outside, depth⟩ ('\x22' :: (cs ++ ['\x22']))
      = Scan.behind ⟨.within, depth⟩ (cs ++ ['\x22']) := rfl
  rw [hOpened, Scan.behind_append, h depth]
  rfl

/-- A level text in braces is level. -/
theorem IsLevel.braces (h : IsLevel cs) : IsLevel ('\x7b' :: (cs ++ ['\x7d'])) := by
  intro depth
  have hOpened : Scan.behind ⟨.outside, depth⟩ ('\x7b' :: (cs ++ ['\x7d']))
      = Scan.behind ⟨.outside, depth + 1⟩ (cs ++ ['\x7d']) := rfl
  rw [hOpened, Scan.behind_append, h (depth + 1)]
  rfl

/-- A text in braces does not end in another one: the opening brace would stand inside of that. -/
theorem eq_nil_of_append_braces {front : List Char} (h : IsLevel cs) (hMore : IsLevel ds)
    (hSame : front ++ '\x7b' :: (cs ++ ['\x7d']) = '\x7b' :: (ds ++ ['\x7d'])) : front = [] := by
  cases front with
  | nil => rfl
  | cons c front =>
    rw [List.cons_append] at hSame
    -- the opening brace stands between those of the other text, behind some scan
    obtain ⟨-, hTail⟩ := List.cons.inj hSame
    rw [← List.cons_append, ← List.append_assoc] at hTail
    obtain ⟨rfl, -⟩ := List.append_inj' hTail rfl
    have hInner := hMore 0
    rw [Scan.behind_append, Option.bind_eq_some_iff] at hInner
    obtain ⟨⟨place, depth⟩, -, hBehind⟩ := hInner
    -- from within a string the rest is scanned the wrong way round
    have hWithin {k : Nat} (hEnd : Scan.behind ⟨.within, k⟩ cs = some ⟨.outside, 0⟩) : False := by
      have hTurned : Scan.Opposite ⟨.outside, 0⟩ ⟨.within, k⟩ := .inl ⟨rfl, rfl⟩
      rcases hTurned.behind (h 0) hEnd with ⟨-, hPlace⟩ | ⟨hPlace, -⟩ <;> cases hPlace
    cases place with
    | outside =>
      -- outside of strings it opens a brace that is still open at the end
      have hEnd : Scan.behind ⟨.outside, depth + 1⟩ cs = some ⟨.outside, 0⟩ := hBehind
      rw [h (depth + 1)] at hEnd
      cases hEnd
    | within => exact (hWithin hBehind).elim
    | escaped => exact (hWithin hBehind).elim

end Level

/-! ## Texts of the grammar -/

theorem isPlain_of_isDigit {c : Char} (h : Decimal.isDigit c = true) : isPlain c = true := by
  have hNe (d : Char) (hDigit : Decimal.isDigit d = false) : (c != d) = true :=
    bne_iff_ne.mpr (Decimal.ne_of_isDigit h d hDigit)
  rw [isPlain, hNe _ rfl, hNe _ rfl, hNe _ rfl, hNe _ rfl]
  rfl

theorem IsDigits.isLevel {ds : List Char} (h : IsDigits ds) : IsLevel ds :=
  isLevel_of_plain (List.all_eq_true.mpr fun c hMem => isPlain_of_isDigit (h.digits c hMem))

theorem IsGap.isLevel {gap : List Char} (h : IsGap gap) : IsLevel gap := by
  refine isLevel_of_plain (List.all_eq_true.mpr fun c hMem => ?_)
  have hSpace := h c hMem
  simp only [isSpace, Bool.or_eq_true, decide_eq_true_eq] at hSpace
  rcases hSpace with ((rfl | rfl) | rfl) | rfl <;> decide

theorem SpellsNumber.isLevel {written : List Char} {v : Value} (h : SpellsNumber written v) :
    IsLevel written := by
  obtain ⟨hWhole, hFraction, hExponent, -⟩ := h
  rename_i negative whole fraction exponent ds e
  have hSign : IsLevel (sign negative) := by
    cases negative with
    | true => exact isLevel_of_plain (by decide)
    | false => exact isLevel_nil
  have hFractionLevel : IsLevel fraction := by
    cases hFraction with
    | none => exact isLevel_nil
    | some hDigits => exact .cons (by decide) hDigits.isLevel
  have hExponentLevel : IsLevel exponent := by
    cases hExponent with
    | none => exact isLevel_nil
    | @some mark direction ds hMark hDirection hDigits =>
      have hPlain : isPlain mark = true := by rcases hMark with rfl | rfl <;> decide
      have hLevel : IsLevel direction := by
        rcases hDirection with rfl | rfl | rfl <;> exact isLevel_of_plain (by decide)
      exact .cons hPlain (hLevel.append hDigits.isLevel)
  exact hSign.append (hWhole.toIsDigits.isLevel.append (hFractionLevel.append hExponentLevel))

/-- A number is only read of digits. -/
theorem value?_ne_none_of_toNat? {cs : List Char} {start n : Nat}
    (h : cs.foldlM (fun n c => (Hex.value? c).map (16 * n + ·)) start = some n) :
    ∀ c ∈ cs, Hex.value? c ≠ none := by
  induction cs generalizing start with
  | nil => exact nofun
  | cons c cs ih =>
    rw [List.foldlM_cons, Option.bind_eq_bind, Option.bind_eq_some_iff] at h
    obtain ⟨more, hFirst, hRest⟩ := h
    obtain ⟨digit, hDigit, -⟩ := Option.map_eq_some_iff.mp hFirst
    exact List.forall_mem_cons.mpr ⟨Option.ne_none_iff_exists'.mpr ⟨digit, hDigit⟩, ih hRest⟩

/-- The digits of a unit may stand in a string. -/
theorem isInside_unit {a b c d : Char} {n : Nat} {cs : List Char}
    (hUnit : Text.unit? a b c d = some n) (h : IsInside cs) :
    IsInside (a :: b :: c :: d :: cs) := by
  have hDigits := value?_ne_none_of_toNat? hUnit
  have hCons (x : Char) (hMem : x ∈ [a, b, c, d]) {cs : List Char} (h : IsInside cs) :
      IsInside (x :: cs) := by
    refine h.cons ?_ ?_
    · rintro rfl
      exact hDigits '\x22' hMem rfl
    · rintro rfl
      exact hDigits '\x5c' hMem rfl
  exact hCons a (by simp) (hCons b (by simp) (hCons c (by simp) (hCons d (by simp) h)))

theorem isInside_of_spells {written cs : List Char} (h : Text.Spells written cs) :
    IsInside written := by
  induction h with
  | nil => exact isInside_nil
  | plain _ hQuote hEscape _ ih => exact ih.cons hQuote hEscape
  | escape _ _ ih => exact ih.escape _
  | unit hUnit _ _ ih => exact (isInside_unit hUnit ih).escape 'u'
  | pair hHigh hLow _ _ _ _ ih =>
    exact (isInside_unit hHigh ((isInside_unit hLow ih).escape 'u')).escape 'u'

theorem SpellsKey.isLevel {key : List Char} {k : Value} (h : SpellsKey key k) : IsLevel key := by
  obtain ⟨hText, hGap, hGap'⟩ := h
  rename_i written cs gap gap'
  have hColon : IsLevel (':' :: gap') := .cons (by decide) hGap'.isLevel
  have hString := (isInside_of_spells hText).isLevel.append (hGap.isLevel.append hColon)
  rw [List.cons_append, List.append_assoc] at hString
  exact hString

theorem isLevel_of_mem_words {written : List Char} {v : Value} (h : (written, v) ∈ words) :
    IsLevel written := by
  have hWords : ∀ word ∈ words, IsLevel word.1 := by
    simp only [words, List.forall_mem_cons]
    exact ⟨isLevel_of_plain (by decide), isLevel_of_plain (by decide),
      isLevel_of_plain (by decide), isLevel_of_plain (by decide), isLevel_of_plain (by decide),
      isLevel_of_plain (by decide), List.forall_mem_nil _⟩
  exact hWords _ h

/-- A value and the items of a list are level; the entries of a map are level up to the closing
brace. -/
def Part.Nests (written : List Char) : Part → Prop
  | .value _ | .items _ => IsLevel written
  | .entries _ => ∃ inner, written = inner ++ ['\x7d'] ∧ IsLevel inner

theorem nests_of_spells {written : List Char} {part : Part} (h : Spells written part) :
    part.Nests written := by
  induction h with
  | word h => exact isLevel_of_mem_words h
  | number h => exact h.isLevel
  | text h => exact (isInside_of_spells h).isLevel
  | noItems hGap => exact .cons (by decide) (hGap.isLevel.append (isLevel_of_plain (by decide)))
  | list hGap _ ih => exact .cons (by decide) (hGap.isLevel.append ih)
  | noEntries hGap => exact hGap.isLevel.braces
  | map hGap _ ih =>
    obtain ⟨inner, rfl, hInner⟩ := ih
    have hBraces := (hGap.isLevel.append hInner).braces
    rw [List.append_assoc] at hBraces
    exact hBraces
  | lastItem _ hGap ih => exact ih.append (hGap.isLevel.append (isLevel_of_plain (by decide)))
  | item _ hGap hGap' _ ih ihMore =>
    exact ih.append (hGap.isLevel.append (.cons (by decide) (hGap'.isLevel.append ihMore)))
  | lastEntry hKey _ hGap ih =>
    refine ⟨_, ?_, hKey.isLevel.append (ih.append hGap.isLevel)⟩
    simp only [List.append_assoc]
  | entry hKey _ hGap hGap' _ ih ihMore =>
    obtain ⟨inner, rfl, hInner⟩ := ihMore
    have hComma : IsLevel (',' :: (_ ++ inner)) := .cons (by decide) (hGap'.isLevel.append hInner)
    refine ⟨_, ?_, hKey.isLevel.append (ih.append (hGap.isLevel.append hComma))⟩
    simp only [List.append_assoc, List.cons_append]

/-- The text of a map is level between its braces. -/
theorem exists_braces {written : List Char} {entries : List (Value × Value)}
    (h : Spells written (.value (.map entries))) :
    ∃ inner, written = '\x7b' :: (inner ++ ['\x7d']) ∧ IsLevel inner := by
  cases h with
  | word h => simp [words] at h
  | number h =>
    obtain ⟨-, -, -, hValue⟩ := h
    rename_i ds e
    cases ds <;> cases e <;> simp [ofParts?] at hValue
  | noEntries hGap => exact ⟨_, rfl, hGap.isLevel⟩
  | map hGap h =>
    obtain ⟨inner, rfl, hInner⟩ := nests_of_spells h
    exact ⟨_, by rw [List.append_assoc], hGap.isLevel.append hInner⟩

/-- What stands in front of the text of a map is told apart from it. -/
theorem append_map_inj {front front' written written' : List Char}
    {entries entries' : List (Value × Value)} (h : Spells written (.value (.map entries)))
    (h' : Spells written' (.value (.map entries')))
    (hSame : front ++ written = front' ++ written') : front = front' ∧ written = written' := by
  obtain ⟨inner, rfl, hInner⟩ := exists_braces h
  obtain ⟨inner', rfl, hInner'⟩ := exists_braces h'
  rcases List.append_eq_append_iff.mp hSame with ⟨more, hFront, hText⟩ | ⟨more, hFront, hText⟩
  · have hNone := eq_nil_of_append_braces hInner' hInner hText.symm
    rw [hNone, List.append_nil] at hFront
    rw [hNone, List.nil_append] at hText
    exact ⟨hFront.symm, hText⟩
  · have hNone := eq_nil_of_append_braces hInner hInner' hText.symm
    rw [hNone, List.append_nil] at hFront
    rw [hNone, List.nil_append] at hText
    exact ⟨hFront, hText.symm⟩

end PageBlocks.Json
