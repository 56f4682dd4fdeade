import PageBlocks.Json.Text
import PageBlocks.Text.Hex

/-!
# What JSON strings spell

The written forms of the characters of a string, apart from the reader (`Text.Spells`): a character
may stand for itself, have an escape, or be given by one or two UTF-16 units. The reader takes
exactly these up to a closing quote (`body_eq_some_iff`), and what is written for a string is one of
them (`spells_flatMap_character`).
-/

set_option autoImplicit false

namespace PageBlocks.Json.Text

open PageBlocks.Text

/-- A written form of the characters of a string. -/
inductive Spells : List Char → List Char → Prop where
  | nil : Spells [] []
  | plain {c : Char} {written cs : List Char} (hPrintable : 32 ≤ c.toNat) (hQuote : c ≠ '\x22')
      (hEscape : c ≠ '\x5c') (h : Spells written cs) : Spells (c :: written) (c :: cs)
  | escape {e c : Char} {written cs : List Char} (hEscape : ofEscape? e = some c)
      (h : Spells written cs) : Spells ('\x5c' :: e :: written) (c :: cs)
  | unit {a b c d x : Char} {n : Nat} {written cs : List Char} (hUnit : unit? a b c d = some n)
      (hScalar : scalar? n = some x) (h : Spells written cs) :
      Spells ('\x5c' :: 'u' :: a :: b :: c :: d :: written) (x :: cs)
  | pair {a b c d e f g i x : Char} {high low : Nat} {written cs : List Char}
      (hHigh : unit? a b c d = some high) (hLow : unit? e f g i = some low)
      (hFirst : 0xD800 ≤ high ∧ high < 0xDC00) (hSecond : 0xDC00 ≤ low ∧ low < 0xE000)
      (hScalar : scalar? (0x10000 + (high - 0xD800) * 1024 + (low - 0xDC00)) = some x)
      (h : Spells written cs) :
      Spells ('\x5c' :: 'u' :: a :: b :: c :: d :: '\x5c' :: 'u' :: e :: f :: g :: i :: written)
        (x :: cs)

/-! ## Code points -/

theorem scalar?_toNat (c : Char) : scalar? c.toNat = some c := by
  have hValid : c.toNat.isValidChar := c.valid
  rw [scalar?, dif_pos hValid, Option.some.injEq]
  exact Char.toNat_inj.mp rfl

/-- No half of a surrogate pair is a character. -/
theorem not_surrogate_of_scalar? {n : Nat} {c : Char} (h : scalar? n = some c) :
    ¬ (0xD800 ≤ n ∧ n < 0xDC00) := by
  by_cases hValid : n.isValidChar
  · rcases hValid with hLow | ⟨hHigh, -⟩
    · omega
    · omega
  · rw [scalar?, dif_neg hValid] at h
    cases h

/-! ## Reading -/

/-- The reader takes written forms up to the closing quote. -/
theorem body_of_spells {written cs : List Char} (h : Spells written cs) (rest : List Char) :
    body (written ++ '\x22' :: rest) = some (cs, rest) := by
  induction h with
  | nil => rw [List.nil_append, body]
  | @plain c written cs hPrintable hQuote hEscape _ ih =>
    rw [List.cons_append, body.eq_5 c _ hQuote (fun _ _ _ _ _ hSame _ => hEscape hSame)
      (fun _ _ hSame _ => hEscape hSame), if_neg (by simp [hEscape]; omega), ih]
    rfl
  | @escape e c written cs hEscape _ ih =>
    have hLetter : e ≠ 'u' := by
      rintro rfl
      cases hEscape
    rw [List.cons_append, List.cons_append, body.eq_4 e _ (fun _ _ _ _ _ hSame _ => hLetter hSame),
      hEscape, ih]
    rfl
  | @unit a b c d x n written cs hUnit hScalar _ ih =>
    -- a unit that is a character of its own does not begin a pair
    have hAlone := not_surrogate_of_scalar? hScalar
    simp only [List.cons_append, body, hUnit, Option.bind_eq_bind, Option.bind_some, if_neg hAlone,
      hScalar, ih, Option.pure_def]
  | @pair a b c d e f g i x high low written cs hHigh hLow hFirst hSecond hScalar _ ih =>
    simp only [List.cons_append, body, hHigh, hLow, Option.bind_eq_bind, Option.bind_some,
      if_pos hFirst, if_pos hSecond, hScalar, ih, Option.pure_def]

/-- It takes nothing else. -/
theorem exists_spells_of_body {cs : List Char} {found rest : List Char}
    (h : body cs = some (found, rest)) :
    ∃ written, cs = written ++ '\x22' :: rest ∧ Spells written found := by
  induction cs using body.induct generalizing found with
  | case1 => cases h
  | case2 other =>
    rw [body] at h
    cases h
    exact ⟨[], rfl, .nil⟩
  | case3 a b c d other ihPair ih =>
    rw [body, Option.bind_eq_bind, Option.bind_eq_some_iff] at h
    obtain ⟨high, hHigh, h⟩ := h
    split at h
    · rename_i hFirst
      split at h
      · rename_i e f g i rest'
        simp only [Option.bind_eq_bind, Option.bind_eq_some_iff] at h
        obtain ⟨low, hLow, h⟩ := h
        split at h
        · rename_i hSecond
          simp only [Option.bind_eq_some_iff, Option.pure_def, Option.some.injEq,
            Prod.mk.injEq] at h
          obtain ⟨x, hScalar, ⟨cs, behind⟩, hBody, rfl, rfl⟩ := h
          obtain ⟨written, rfl, hSpells⟩ := ihPair hBody
          exact ⟨_, rfl, .pair hHigh hLow hFirst hSecond hScalar hSpells⟩
        · cases h
      · cases h
    · simp only [Option.bind_eq_bind, Option.bind_eq_some_iff, Option.pure_def, Option.some.injEq,
        Prod.mk.injEq] at h
      obtain ⟨x, hScalar, ⟨cs, behind⟩, hBody, rfl, rfl⟩ := h
      obtain ⟨written, rfl, hSpells⟩ := ih hBody
      exact ⟨_, rfl, .unit hHigh hScalar hSpells⟩
  | case4 e other hNot ih =>
    rw [body.eq_4 e other hNot] at h
    simp only [Option.bind_eq_bind, Option.bind_eq_some_iff, Option.pure_def, Option.some.injEq,
      Prod.mk.injEq] at h
    obtain ⟨c, hEscape, ⟨cs, behind⟩, hBody, rfl, rfl⟩ := h
    obtain ⟨written, rfl, hSpells⟩ := ih hBody
    exact ⟨_, rfl, .escape hEscape hSpells⟩
  | case5 c other hQuote hUnit hEscape hRefused =>
    rw [body.eq_5 c other hQuote hUnit hEscape, if_pos hRefused] at h
    cases h
  | case6 c other hQuote hUnit hEscape hTaken ih =>
    rw [body.eq_5 c other hQuote hUnit hEscape, if_neg hTaken] at h
    simp only [Option.bind_eq_bind, Option.bind_eq_some_iff, Option.pure_def, Option.some.injEq,
      Prod.mk.injEq] at h
    obtain ⟨⟨cs, behind⟩, hBody, rfl, rfl⟩ := h
    obtain ⟨written, rfl, hSpells⟩ := ih hBody
    rw [not_or] at hTaken
    exact ⟨_, rfl, .plain (Nat.not_lt.mp hTaken.1) hQuote hTaken.2 hSpells⟩

theorem body_eq_some_iff {cs found rest : List Char} : body cs = some (found, rest)
    ↔ ∃ written, cs = written ++ '\x22' :: rest ∧ Spells written found := by
  constructor
  · exact exists_spells_of_body
  · rintro ⟨written, rfl, hSpells⟩
    exact body_of_spells hSpells rest

/-! ## Writing -/

theorem ofEscape?_of_shortEscape? {c e : Char} (h : shortEscape? c = some e) :
    ofEscape? e = some c := by
  unfold shortEscape? at h
  grind [ofEscape?]

/-- A UTF-16 unit is read back. -/
theorem unit_eq (n : Nat) : ∃ a b c d, unit n = ['\x5c', 'u', a, b, c, d]
    ∧ unit? a b c d = some (n % 0x10000) :=
  ⟨_, _, _, _, rfl, Hex.toNat?_ofNat 4 n⟩

theorem spells_character {c : Char} {written cs : List Char} (h : Spells written cs) :
    Spells (character c ++ written) (c :: cs) := by
  unfold character
  cases hShort : shortEscape? c with
  | some e => exact .escape (ofEscape?_of_shortEscape? hShort) h
  | none =>
    dsimp only
    split
    · rename_i hPrintable
      refine .plain hPrintable.1 ?_ ?_ h
      · rintro rfl
        cases hShort
      · rintro rfl
        cases hShort
    · split
      · rename_i hSmall
        obtain ⟨p, q, r, s, hUnit, hRead⟩ := unit_eq c.toNat
        rw [Nat.mod_eq_of_lt hSmall] at hRead
        rw [hUnit]
        exact .unit hRead (scalar?_toNat c) h
      · rename_i hLarge
        have hBound : c.toNat < 0x110000 := by
          have hValid : c.toNat.isValidChar := c.valid
          rcases hValid with h | h <;> omega
        obtain ⟨p, q, r, s, hHigh, hReadHigh⟩ := unit_eq (0xD800 + (c.toNat - 0x10000) / 1024)
        obtain ⟨t, u, v, w, hLow, hReadLow⟩ := unit_eq (0xDC00 + (c.toNat - 0x10000) % 1024)
        rw [Nat.mod_eq_of_lt (by omega)] at hReadHigh hReadLow
        rw [hHigh, hLow]
        refine .pair hReadHigh hReadLow (by omega) (by omega) ?_ h
        have hPoint : 0x10000 + (0xD800 + (c.toNat - 0x10000) / 1024 - 0xD800) * 1024
            + (0xDC00 + (c.toNat - 0x10000) % 1024 - 0xDC00) = c.toNat := by omega
        rw [hPoint]
        exact scalar?_toNat c

/-- What is written for a string spells it. -/
theorem spells_flatMap_character (cs : List Char) : Spells (cs.flatMap character) cs := by
  induction cs with
  | nil => exact .nil
  | cons c cs ih => exact spells_character ih

end PageBlocks.Json.Text
