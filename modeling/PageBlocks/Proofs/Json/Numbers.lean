import PageBlocks.Json.Reader

/-!
# What JSON numbers spell

The written forms of numbers, apart from the reader (`SpellsNumber`): a whole part without
superfluous zeros, and for a double a fraction, an exponent or both. The reader takes the longest
written form at the start of a text, so what stands behind a number must not go on with it
(`Apart`); then it takes exactly these forms (`number?_of_spells`, `exists_spells_of_number?`).
-/

set_option autoImplicit false

namespace PageBlocks.Json

open PageBlocks.Number

/-- The sign of a number. -/
def sign (negative : Bool) : List Char := if negative then ['-'] else []

/-- A run of digits. -/
structure IsDigits (ds : List Char) : Prop where
  some_digit : ds ≠ []
  digits : ∀ c ∈ ds, Decimal.isDigit c = true

/-- A whole part. Only zero starts with a zero. -/
structure IsWhole (ds : List Char) : Prop extends IsDigits ds where
  no_spare_zero : ds.head? = some '0' → ds = ['0']

/-- A fraction by its digits, or none. -/
inductive SpellsFraction : List Char → Option (List Char) → Prop where
  | none : SpellsFraction [] none
  | some {ds : List Char} (h : IsDigits ds) : SpellsFraction ('.' :: ds) (some ds)

/-- An exponent by its value, or none. -/
inductive SpellsExponent : List Char → Option Int → Prop where
  | none : SpellsExponent [] none
  | some {mark : Char} {direction ds : List Char} (hMark : mark = 'e' ∨ mark = 'E')
      (hDirection : direction = [] ∨ direction = ['-'] ∨ direction = ['+']) (h : IsDigits ds) :
      SpellsExponent (mark :: (direction ++ ds)) (some (Reading.exponentValue (direction ++ ds)))

/-- A written form of a number. -/
inductive SpellsNumber : List Char → Value → Prop where
  | parts {negative : Bool} {whole fraction exponent : List Char} {ds : Option (List Char)}
      {e : Option Int} {v : Value} (hWhole : IsWhole whole) (hFraction : SpellsFraction fraction ds)
      (hExponent : SpellsExponent exponent e) (hValue : ofParts? negative whole ds e = some v) :
      SpellsNumber (sign negative ++ (whole ++ (fraction ++ exponent))) v

/-- Whether no number before a text goes on in it. -/
def Apart (rest : List Char) : Prop :=
  ∀ c ∈ rest.head?, Decimal.isDigit c = false ∧ c ≠ '.' ∧ c ≠ 'e' ∧ c ≠ 'E'

/-! ## Runs of digits -/

section Digits

variable {ds rest : List Char}

theorem takeWhile_isDigit (hDigits : ∀ c ∈ ds, Decimal.isDigit c = true)
    (hRest : ∀ c ∈ rest.head?, Decimal.isDigit c = false) :
    (ds ++ rest).takeWhile Decimal.isDigit = ds := by
  rw [List.takeWhile_append_of_pos hDigits]
  cases rest with
  | nil => exact List.append_nil ds
  | cons c rest =>
    have hFirst : ¬ Decimal.isDigit c = true := by simp [hRest c rfl]
    rw [List.takeWhile_cons_of_neg hFirst, List.append_nil]

theorem dropWhile_isDigit (hDigits : ∀ c ∈ ds, Decimal.isDigit c = true)
    (hRest : ∀ c ∈ rest.head?, Decimal.isDigit c = false) :
    (ds ++ rest).dropWhile Decimal.isDigit = rest := by
  rw [List.dropWhile_append_of_pos hDigits]
  cases rest with
  | nil => rfl
  | cons c rest => exact List.dropWhile_cons_of_neg (by simp [hRest c rfl])

/-- What the reader takes for a run of digits is one if it is not empty. -/
theorem isDigits_takeWhile {cs : List Char} (h : (cs.takeWhile Decimal.isDigit).isEmpty = false) :
    IsDigits (cs.takeWhile Decimal.isDigit) :=
  ⟨by simpa using h, List.all_eq_true.mp List.all_takeWhile⟩

theorem IsDigits.head (h : IsDigits ds) : ∃ c more, ds = c :: more ∧ Decimal.isDigit c = true := by
  obtain ⟨c, more, rfl⟩ := List.exists_cons_of_ne_nil h.some_digit
  exact ⟨c, more, rfl, h.digits c List.mem_cons_self⟩

theorem IsDigits.isEmpty (h : IsDigits ds) : ds.isEmpty = false := by
  simpa using h.some_digit

end Digits

/-! ## The parts of a number -/

section Parts

variable {rest : List Char}

theorem wholePart?_of_isWhole {whole : List Char} (h : IsWhole whole)
    (hRest : ∀ c ∈ rest.head?, Decimal.isDigit c = false) :
    wholePart? (whole ++ rest) = some (whole, rest) := by
  obtain ⟨c, more, rfl, hDigit⟩ := h.toIsDigits.head
  by_cases hZero : c = '0'
  · subst hZero
    rw [h.no_spare_zero rfl]
    rfl
  · rw [wholePart?]
    · rw [takeWhile_isDigit h.digits hRest, dropWhile_isDigit h.digits hRest,
        h.toIsDigits.isEmpty]
      rfl
    · rintro other hSame
      exact hZero (List.cons.inj hSame).1

theorem isWhole_of_wholePart? {cs whole : List Char} (h : wholePart? cs = some (whole, rest)) :
    cs = whole ++ rest ∧ IsWhole whole := by
  unfold wholePart? at h
  split at h
  · cases h
    exact ⟨rfl, ⟨List.cons_ne_nil _ _, List.forall_mem_singleton.mpr (by decide)⟩, fun _ => rfl⟩
  · rename_i hZero
    dsimp only at h
    split at h
    · cases h
    · rename_i hSome
      cases h
      refine ⟨List.takeWhile_append_dropWhile.symm,
        isDigits_takeWhile (Bool.not_eq_true _ ▸ hSome), fun hHead => ?_⟩
      rw [List.head?_takeWhile, Option.filter_eq_some_iff] at hHead
      obtain ⟨more, hMore⟩ := List.head?_eq_some_iff.mp hHead.1
      exact absurd hMore (hZero more)

theorem fractionPart?_of_isDigits {ds : List Char} (h : IsDigits ds)
    (hRest : ∀ c ∈ rest.head?, Decimal.isDigit c = false) :
    fractionPart? ('.' :: (ds ++ rest)) = some (ds, rest) := by
  rw [fractionPart?, takeWhile_isDigit h.digits hRest, dropWhile_isDigit h.digits hRest, h.isEmpty]
  rfl

theorem fractionPart?_of_ne (hRest : ∀ c ∈ rest.head?, c ≠ '.') : fractionPart? rest = none := by
  cases rest with
  | nil => rfl
  | cons c rest =>
    rw [fractionPart?]
    rintro other hSame
    exact hRest c rfl (List.cons.inj hSame).1

theorem isDigits_of_fractionPart? {cs ds : List Char} (h : fractionPart? cs = some (ds, rest)) :
    cs = '.' :: (ds ++ rest) ∧ IsDigits ds := by
  unfold fractionPart? at h
  split at h
  · dsimp only at h
    split at h
    · cases h
    · rename_i hSome
      cases h
      exact ⟨by rw [List.takeWhile_append_dropWhile],
        isDigits_takeWhile (Bool.not_eq_true _ ▸ hSome)⟩
  · cases h

theorem signPart_append {direction ds : List Char}
    (hDirection : direction = [] ∨ direction = ['-'] ∨ direction = ['+']) (h : IsDigits ds) :
    signPart (direction ++ (ds ++ rest)) = (direction, ds ++ rest) := by
  rcases hDirection with rfl | rfl | rfl
  · obtain ⟨c, more, rfl, hDigit⟩ := h.head
    rw [List.nil_append, List.cons_append, signPart]
    · rintro _ ⟨⟩
      exact absurd hDigit (by decide)
    · rintro _ ⟨⟩
      exact absurd hDigit (by decide)
  · rfl
  · rfl

theorem eq_append_of_signPart {cs direction behind : List Char}
    (h : signPart cs = (direction, behind)) :
    cs = direction ++ behind ∧ (direction = [] ∨ direction = ['-'] ∨ direction = ['+']) := by
  unfold signPart at h
  split at h
  · cases h
    exact ⟨rfl, .inr (.inl rfl)⟩
  · cases h
    exact ⟨rfl, .inr (.inr rfl)⟩
  · cases h
    exact ⟨rfl, .inl rfl⟩

theorem exponentPart?_of_isDigits {mark : Char} {direction ds : List Char}
    (hMark : mark = 'e' ∨ mark = 'E')
    (hDirection : direction = [] ∨ direction = ['-'] ∨ direction = ['+']) (h : IsDigits ds)
    (hRest : ∀ c ∈ rest.head?, Decimal.isDigit c = false) :
    exponentPart? (mark :: (direction ++ (ds ++ rest)))
      = some (Reading.exponentValue (direction ++ ds), rest) := by
  rw [exponentPart?, if_pos hMark, signPart_append hDirection h]
  dsimp only
  rw [takeWhile_isDigit h.digits hRest, dropWhile_isDigit h.digits hRest, h.isEmpty]
  rfl

theorem exponentPart?_of_ne (hRest : ∀ c ∈ rest.head?, c ≠ 'e' ∧ c ≠ 'E') :
    exponentPart? rest = none := by
  cases rest with
  | nil => rfl
  | cons c rest =>
    have hMark : ¬ (c = 'e' ∨ c = 'E') := not_or.mpr (hRest c rfl)
    rw [exponentPart?, if_neg hMark]

theorem spells_of_exponentPart? {cs : List Char} {e : Int} (h : exponentPart? cs = some (e, rest)) :
    ∃ exponent, cs = exponent ++ rest ∧ SpellsExponent exponent (some e) := by
  unfold exponentPart? at h
  split at h
  · rename_i mark other
    split at h
    · rename_i hMark
      have hSame : signPart other = ((signPart other).1, (signPart other).2) := rfl
      obtain ⟨hShape, hDirection⟩ := eq_append_of_signPart hSame
      dsimp only at h
      split at h
      · cases h
      · rename_i hSome
        cases h
        refine ⟨_, ?_, .some hMark hDirection
          (isDigits_takeWhile (Bool.not_eq_true _ ▸ hSome))⟩
        rw [List.cons_append, List.append_assoc, List.takeWhile_append_dropWhile, ← hShape]
    · cases h
  · cases h

theorem optional_of_some {α : Type} {part? : List Char → Option (α × List Char)} {cs : List Char}
    {found : α} (h : part? cs = some (found, rest)) : optional part? cs = (some found, rest) := by
  rw [optional, h]

theorem optional_of_none {α : Type} {part? : List Char → Option (α × List Char)}
    (h : part? rest = none) : optional part? rest = (none, rest) := by
  rw [optional, h]

theorem optional_fraction {fraction : List Char} {ds : Option (List Char)}
    (h : SpellsFraction fraction ds)
    (hRest : ∀ c ∈ rest.head?, Decimal.isDigit c = false ∧ c ≠ '.') :
    optional fractionPart? (fraction ++ rest) = (ds, rest) := by
  cases h with
  | none => exact optional_of_none (fractionPart?_of_ne fun c hMem => (hRest c hMem).2)
  | some h => exact optional_of_some (fractionPart?_of_isDigits h fun c hMem => (hRest c hMem).1)

theorem optional_exponent {exponent : List Char} {e : Option Int} (h : SpellsExponent exponent e)
    (hRest : Apart rest) : optional exponentPart? (exponent ++ rest) = (e, rest) := by
  cases h with
  | none => exact optional_of_none (exponentPart?_of_ne fun c hMem => (hRest c hMem).2.2)
  | some hMark hDirection h =>
    rw [List.cons_append, List.append_assoc]
    exact optional_of_some (exponentPart?_of_isDigits hMark hDirection h
      fun c hMem => (hRest c hMem).1)

theorem fraction_of_optional {cs : List Char} {ds : Option (List Char)}
    (h : optional fractionPart? cs = (ds, rest)) :
    ∃ fraction, cs = fraction ++ rest ∧ SpellsFraction fraction ds := by
  unfold optional at h
  split at h
  · rename_i found behind hFound
    cases h
    obtain ⟨hShape, hDigits⟩ := isDigits_of_fractionPart? hFound
    exact ⟨_, hShape, .some hDigits⟩
  · cases h
    exact ⟨[], rfl, .none⟩

theorem exponent_of_optional {cs : List Char} {e : Option Int}
    (h : optional exponentPart? cs = (e, rest)) :
    ∃ exponent, cs = exponent ++ rest ∧ SpellsExponent exponent e := by
  unfold optional at h
  split at h
  · rename_i found behind hFound
    cases h
    exact spells_of_exponentPart? hFound
  · cases h
    exact ⟨[], rfl, .none⟩

theorem minusPart_sign {negative : Bool} {whole : List Char} (h : IsWhole whole) :
    minusPart (sign negative ++ (whole ++ rest)) = (negative, whole ++ rest) := by
  cases negative with
  | true => rfl
  | false =>
    obtain ⟨c, more, rfl, hDigit⟩ := h.toIsDigits.head
    have hSame : sign false ++ (c :: more ++ rest) = c :: (more ++ rest) := rfl
    rw [hSame, minusPart]
    · rfl
    · rintro _ ⟨⟩
      exact absurd hDigit (by decide)

theorem eq_append_of_minusPart {cs : List Char} {negative : Bool}
    (h : minusPart cs = (negative, rest)) : cs = sign negative ++ rest := by
  unfold minusPart at h
  split at h
  · cases h
    rfl
  · cases h
    rfl

end Parts

/-! ## What may stand behind a part -/

theorem SpellsExponent.apart {exponent rest : List Char} {e : Option Int}
    (h : SpellsExponent exponent e) (hRest : Apart rest) :
    ∀ c ∈ (exponent ++ rest).head?, Decimal.isDigit c = false ∧ c ≠ '.' := by
  cases h with
  | none => exact fun c hMem => ⟨(hRest c hMem).1, (hRest c hMem).2.1⟩
  | some hMark _ _ =>
    rintro c ⟨⟩
    rcases hMark with rfl | rfl <;> decide

theorem SpellsFraction.apart {fraction rest : List Char} {ds : Option (List Char)}
    (h : SpellsFraction fraction ds)
    (hRest : ∀ c ∈ rest.head?, Decimal.isDigit c = false ∧ c ≠ '.') :
    ∀ c ∈ (fraction ++ rest).head?, Decimal.isDigit c = false := by
  cases h with
  | none => exact fun c hMem => (hRest c hMem).1
  | some _ =>
    rintro c ⟨⟩
    decide

/-! ## Numbers -/

/-- The reader takes the written forms of numbers. -/
theorem number?_of_spells {written rest : List Char} {v : Value} (h : SpellsNumber written v)
    (hRest : Apart rest) : number? (written ++ rest) = some (v, rest) := by
  obtain ⟨hWhole, hFraction, hExponent, hValue⟩ := h
  -- each part ends where the next one begins, since none begins with a digit
  have hBehindFraction := hExponent.apart hRest
  have hBehindWhole := hFraction.apart hBehindFraction
  simp only [List.append_assoc]
  unfold number?
  rw [minusPart_sign hWhole]
  dsimp only
  rw [wholePart?_of_isWhole hWhole hBehindWhole, Option.bind_eq_bind, Option.bind_some]
  dsimp only
  rw [optional_fraction hFraction hBehindFraction]
  dsimp only
  rw [optional_exponent hExponent hRest]
  dsimp only
  rw [hValue]
  rfl

/-- It takes nothing else. -/
theorem exists_spells_of_number? {cs rest : List Char} {v : Value}
    (h : number? cs = some (v, rest)) :
    ∃ written, cs = written ++ rest ∧ SpellsNumber written v := by
  unfold number? at h
  rcases hMinus : minusPart cs with ⟨negative, cs'⟩
  rw [hMinus] at h
  simp only [Option.bind_eq_bind, Option.bind_eq_some_iff, Prod.exists, Option.pure_def,
    Option.some.injEq, Prod.mk.injEq] at h
  obtain ⟨whole, behind, hWhole, v', hValue, rfl, hRest⟩ := h
  obtain ⟨rfl, hIsWhole⟩ := isWhole_of_wholePart? hWhole
  rcases hFound : optional fractionPart? behind with ⟨ds, behind'⟩
  rw [hFound] at hValue hRest
  dsimp only at hValue hRest
  rcases hFound' : optional exponentPart? behind' with ⟨e, behind''⟩
  rw [hFound'] at hValue hRest
  dsimp only at hValue hRest
  subst hRest
  obtain ⟨fraction, rfl, hFraction⟩ := fraction_of_optional hFound
  obtain ⟨exponent, rfl, hExponent⟩ := exponent_of_optional hFound'
  refine ⟨_, ?_, .parts hIsWhole hFraction hExponent hValue⟩
  rw [eq_append_of_minusPart hMinus]
  simp only [List.append_assoc]

/-! ## Written integers -/

theorem isDigits_digits (n : Nat) : IsDigits (Decimal.digits n) := by
  refine ⟨?_, fun c hMem => Decimal.isDigit_of_mem_digits hMem⟩
  unfold Decimal.digits
  split
  · exact List.cons_ne_nil _ _
  · exact List.append_ne_nil_of_right_ne_nil _ (List.cons_ne_nil _ _)

theorem isWhole_digits (n : Nat) : IsWhole (Decimal.digits n) := by
  refine ⟨isDigits_digits n, ?_⟩
  fun_induction Decimal.digits n with
  | case1 n hSmall =>
    intro hHead
    rw [Option.some.inj hHead]
  | case2 n hLarge ih =>
    intro hHead
    obtain ⟨c, more, hShape, -⟩ := (isDigits_digits (n / 10)).head
    have hFirst : (Decimal.digits (n / 10)).head? = some '0' := by
      rw [hShape] at hHead ⊢
      exact hHead
    have hTens := congrArg Decimal.ofDigits (ih hFirst)
    rw [Decimal.ofDigits_digits] at hTens
    have hZero : Decimal.ofDigits ['0'] = 0 := by decide
    omega

/-- What is written for an integer of not too many digits spells it. -/
theorem spells_ofInt {n : Int} (h : (Decimal.digits n.natAbs).length ≤ Decimal.readLimit) :
    SpellsNumber (Decimal.ofInt n) (.int n) := by
  have hValue : ofParts? (decide (n < 0)) (Decimal.digits n.natAbs) none none = some (.int n) := by
    rw [ofParts?, if_neg (Nat.not_lt.mpr h)]
    dsimp only
    rw [Decimal.ofDigits_digits]
    by_cases hNegative : n < 0
    · rw [if_pos (by simpa using hNegative)]
      congr 2
      omega
    · rw [if_neg (by simpa using hNegative)]
      congr 2
      omega
  have hShape : Decimal.ofInt n
      = sign (decide (n < 0)) ++ (Decimal.digits n.natAbs ++ ([] ++ [])) := by
    rw [Decimal.ofInt, sign, List.append_nil, List.append_nil]
    by_cases hNegative : n < 0 <;> simp [hNegative]
  rw [hShape]
  exact .parts (isWhole_digits n.natAbs) .none .none hValue

end PageBlocks.Json
