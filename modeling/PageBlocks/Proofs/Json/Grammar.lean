import PageBlocks.Json.Reader
import PageBlocks.Proofs.Json.Numbers
import PageBlocks.Proofs.Json.Strings
import PageBlocks.Proofs.Tables

/-!
# What JSON texts spell

The grammar of JSON texts, apart from the reader: what a text spells as a value, as the rest of a
list behind its opening bracket, or as the rest of a map behind its opening brace (`Spells`). Blanks
may stand around every token. The reader takes the texts of the grammar (`isRead_of_spells`) and
nothing else (`exists_spells_of_value?`), however deep they nest and however long they are, so it
takes a whole text exactly if that is a text of the grammar (`read?_eq_some_iff`).
-/

set_option autoImplicit false

namespace PageBlocks.Json

open PageBlocks.Number

/-- Blanks between tokens. -/
def IsGap (gap : List Char) : Prop := ∀ c ∈ gap, isSpace c = true

/-- What a part of a JSON text stands for. -/
inductive Part where
  | value (v : Value)
  /-- The items of a list, up to its closing bracket. -/
  | items (vs : List Value)
  /-- The entries of a map, up to its closing brace. -/
  | entries (bindings : List (Value × Value))

/-- A key of a map and the colon behind it. -/
inductive SpellsKey : List Char → Value → Prop where
  | intro {written cs gap gap' : List Char} (h : Text.Spells written cs) (hGap : IsGap gap)
      (hGap' : IsGap gap') :
      SpellsKey ('\x22' :: (written ++ '\x22' :: (gap ++ ':' :: gap'))) (.text (String.ofList cs))

/-- A written form of a part of a JSON text. -/
inductive Spells : List Char → Part → Prop where
  | word {written : List Char} {v : Value} (h : (written, v) ∈ words) : Spells written (.value v)
  | number {written : List Char} {v : Value} (h : SpellsNumber written v) :
      Spells written (.value v)
  | text {written cs : List Char} (h : Text.Spells written cs) :
      Spells ('\x22' :: (written ++ ['\x22'])) (.value (.text (String.ofList cs)))
  | noItems {gap : List Char} (hGap : IsGap gap) :
      Spells ('[' :: (gap ++ [']'])) (.value (.list []))
  | list {gap written : List Char} {vs : List Value} (hGap : IsGap gap)
      (h : Spells written (.items vs)) : Spells ('[' :: (gap ++ written)) (.value (.list vs))
  | noEntries {gap : List Char} (hGap : IsGap gap) :
      Spells ('\x7b' :: (gap ++ ['\x7d'])) (.value (.map []))
  | map {gap written : List Char} {bindings : List (Value × Value)} (hGap : IsGap gap)
      (h : Spells written (.entries bindings)) :
      Spells ('\x7b' :: (gap ++ written)) (.value (.map (Table.ofBindings bindings)))
  | lastItem {written gap : List Char} {v : Value} (h : Spells written (.value v))
      (hGap : IsGap gap) : Spells (written ++ (gap ++ [']'])) (.items [v])
  | item {written gap gap' more : List Char} {v : Value} {vs : List Value}
      (h : Spells written (.value v)) (hGap : IsGap gap) (hGap' : IsGap gap')
      (hMore : Spells more (.items vs)) :
      Spells (written ++ (gap ++ ',' :: (gap' ++ more))) (.items (v :: vs))
  | lastEntry {key written gap : List Char} {k v : Value} (hKey : SpellsKey key k)
      (h : Spells written (.value v)) (hGap : IsGap gap) :
      Spells (key ++ (written ++ (gap ++ ['\x7d']))) (.entries [(k, v)])
  | entry {key written gap gap' more : List Char} {k v : Value} {bindings : List (Value × Value)}
      (hKey : SpellsKey key k) (h : Spells written (.value v)) (hGap : IsGap gap)
      (hGap' : IsGap gap') (hMore : Spells more (.entries bindings)) :
      Spells (key ++ (written ++ (gap ++ ',' :: (gap' ++ more)))) (.entries ((k, v) :: bindings))

/-! ## Blanks -/

section Blanks

variable {gap rest : List Char} {c : Char}

theorem skip_gap (hGap : IsGap gap) (rest : List Char) : skip (gap ++ rest) = skip rest :=
  List.dropWhile_append_of_pos hGap

theorem skip_cons (h : isSpace c = false) (rest : List Char) : skip (c :: rest) = c :: rest :=
  List.dropWhile_cons_of_neg (by simp [h])

theorem skip_gap_cons (hGap : IsGap gap) (h : isSpace c = false) (rest : List Char) :
    skip (gap ++ c :: rest) = c :: rest := by
  rw [skip_gap hGap, skip_cons h]

/-- What is skipped is a gap. -/
theorem exists_gap (cs : List Char) : ∃ gap, IsGap gap ∧ cs = gap ++ skip cs :=
  ⟨cs.takeWhile isSpace, List.all_eq_true.mp List.all_takeWhile,
    List.takeWhile_append_dropWhile.symm⟩

theorem exists_gap_of_skip {cs : List Char} (h : skip cs = rest) :
    ∃ gap, IsGap gap ∧ cs = gap ++ rest :=
  h ▸ exists_gap cs

/-- No number goes on in blanks. -/
theorem apart_append (hGap : IsGap gap) (hRest : Apart rest) : Apart (gap ++ rest) := by
  cases gap with
  | nil => exact hRest
  | cons d gap =>
    rintro _ ⟨⟩
    have hSpace := hGap d List.mem_cons_self
    simp only [isSpace, Bool.or_eq_true, decide_eq_true_eq] at hSpace
    rcases hSpace with ((rfl | rfl) | rfl) | rfl <;> decide

theorem apart_gap (hGap : IsGap gap) : Apart gap := by
  have hNil : Apart [] := nofun
  exact List.append_nil gap ▸ apart_append hGap hNil

theorem apart_gap_cons (hGap : IsGap gap) (h : c = ',' ∨ c = ']' ∨ c = '\x7d') (rest : List Char) :
    Apart (gap ++ c :: rest) := by
  refine apart_append hGap ?_
  rintro _ ⟨⟩
  rcases h with rfl | rfl | rfl <;> decide

end Blanks

/-! ## First characters -/

theorem SpellsNumber.head {written : List Char} {v : Value} (h : SpellsNumber written v) :
    ∃ negative c more, written = sign negative ++ c :: more ∧ Decimal.isDigit c = true := by
  obtain ⟨hWhole, -, -, -⟩ := h
  obtain ⟨c, more, rfl, hDigit⟩ := hWhole.toIsDigits.head
  exact ⟨_, c, _, rfl, hDigit⟩

/-- A number starts with a digit or a minus sign. -/
theorem SpellsNumber.first {written : List Char} {v : Value} (h : SpellsNumber written v) :
    ∃ c more, written = c :: more ∧ (Decimal.isDigit c = true ∨ c = '-') := by
  obtain ⟨negative, c, more, rfl, hDigit⟩ := h.head
  cases negative with
  | true => exact ⟨'-', c :: more, rfl, .inr rfl⟩
  | false => exact ⟨c, more, rfl, .inl hDigit⟩

/-- No part starts with a blank or a closing mark. -/
theorem Spells.first {written : List Char} {part : Part} (h : Spells written part) :
    ∃ c more, written = c :: more ∧ isSpace c = false ∧ c ≠ ']' ∧ c ≠ '\x7d' := by
  induction h with
  | @word written v h =>
    have hWords : ∀ word ∈ words, ∃ c more, word.1 = c :: more ∧ isSpace c = false ∧ c ≠ ']'
        ∧ c ≠ '\x7d' := by
      simp only [words, List.forall_mem_cons]
      exact ⟨⟨_, _, rfl, by decide⟩, ⟨_, _, rfl, by decide⟩, ⟨_, _, rfl, by decide⟩,
        ⟨_, _, rfl, by decide⟩, ⟨_, _, rfl, by decide⟩, ⟨_, _, rfl, by decide⟩, nofun⟩
    exact hWords _ h
  | number h =>
    obtain ⟨c, more, rfl, hFirst⟩ := h.first
    refine ⟨c, more, rfl, ?_⟩
    rcases hFirst with hDigit | rfl
    · have hNot := Decimal.ne_of_isDigit hDigit
      simp [isSpace, hNot ' ' (by decide), hNot '\t' (by decide), hNot '\n' (by decide),
        hNot '\r' (by decide), hNot ']' (by decide), hNot '\x7d' (by decide)]
    · decide
  | text _ | noItems _ | list _ _ _ | noEntries _ | map _ _ _ => exact ⟨_, _, rfl, by decide⟩
  | lastItem _ _ ih | item _ _ _ _ ih _ =>
    obtain ⟨c, more, rfl, hFirst⟩ := ih
    exact ⟨c, _, rfl, hFirst⟩
  | lastEntry hKey _ _ _ | entry hKey _ _ _ _ _ _ =>
    obtain ⟨_, _, _⟩ := hKey
    exact ⟨_, _, rfl, by decide⟩

/-! ## Values by their first characters -/

section Values

variable {rest : List Char} {depth : Nat}

/-- A text that starts no string, list or map is a name or a number. -/
theorem value?_of_plain {cs : List Char}
    (h : ∀ c ∈ cs.head?, c ≠ '\x22' ∧ c ≠ '[' ∧ c ≠ '\x7b') :
    value? (depth + 1) cs = match word? cs with
      | some found => some found
      | none => number? cs := by
  refine value?.eq_5 cs depth ?_ ?_ ?_
  · rintro other rfl
    exact (h _ rfl).1 rfl
  · rintro other rfl
    exact (h _ rfl).2.1 rfl
  · rintro other rfl
    exact (h _ rfl).2.2 rfl

theorem word?_of_mem {written : List Char} {v : Value} (h : (written, v) ∈ words)
    (rest : List Char) : word? (written ++ rest) = some (v, rest) := by
  simp only [words, List.mem_cons, Prod.mk.injEq, List.not_mem_nil, or_false] at h
  rcases h with ⟨rfl, rfl⟩ | ⟨rfl, rfl⟩ | ⟨rfl, rfl⟩ | ⟨rfl, rfl⟩ | ⟨rfl, rfl⟩ | ⟨rfl, rfl⟩ <;> rfl

theorem exists_mem_of_word? {cs : List Char} {v : Value} (h : word? cs = some (v, rest)) :
    ∃ written, cs = written ++ rest ∧ (written, v) ∈ words := by
  obtain ⟨word, hMem, hWord⟩ := List.exists_of_findSome?_eq_some h
  obtain ⟨behind, hAfter, hSame⟩ := Option.map_eq_some_iff.mp hWord
  cases hSame
  exact ⟨word.1, PageBlocks.Text.eq_append_of_after? hAfter, hMem⟩

/-- No name starts like a number. -/
theorem word?_of_number {written : List Char} {v : Value} (h : SpellsNumber written v)
    (rest : List Char) : word? (written ++ rest) = none := by
  obtain ⟨negative, c, more, rfl, hDigit⟩ := h.head
  have hNot := Decimal.ne_of_isDigit hDigit
  have hLetters : 'n' ≠ c ∧ 't' ≠ c ∧ 'f' ≠ c ∧ 'N' ≠ c ∧ 'I' ≠ c ∧ '-' ≠ c :=
    ⟨(hNot 'n' (by decide)).symm, (hNot 't' (by decide)).symm, (hNot 'f' (by decide)).symm,
      (hNot 'N' (by decide)).symm, (hNot 'I' (by decide)).symm, (hNot '-' (by decide)).symm⟩
  cases negative with
  | true => simp [word?, words, sign, PageBlocks.Text.after?, hLetters]
  | false => simp [word?, words, sign, PageBlocks.Text.after?, hLetters]

theorem value?_of_word {written : List Char} {v : Value} (h : (written, v) ∈ words)
    (rest : List Char) : value? (depth + 1) (written ++ rest) = some (v, rest) := by
  rw [value?_of_plain, word?_of_mem h rest]
  simp only [words, List.mem_cons, Prod.mk.injEq, List.not_mem_nil, or_false] at h
  rcases h with ⟨rfl, rfl⟩ | ⟨rfl, rfl⟩ | ⟨rfl, rfl⟩ | ⟨rfl, rfl⟩ | ⟨rfl, rfl⟩ | ⟨rfl, rfl⟩ <;>
    · rintro _ ⟨⟩
      decide

theorem value?_of_number {written : List Char} {v : Value} (h : SpellsNumber written v)
    (hRest : Apart rest) : value? (depth + 1) (written ++ rest) = some (v, rest) := by
  rw [value?_of_plain, word?_of_number h, number?_of_spells h hRest]
  obtain ⟨c, more, rfl, hFirst⟩ := h.first
  rintro _ ⟨⟩
  rcases hFirst with hDigit | rfl
  · have hNot := Decimal.ne_of_isDigit hDigit
    exact ⟨hNot _ (by decide), hNot _ (by decide), hNot _ (by decide)⟩
  · decide

theorem value?_of_text {written cs : List Char} (h : Text.Spells written cs) (rest : List Char) :
    value? (depth + 1) ('\x22' :: (written ++ '\x22' :: rest))
      = some (.text (String.ofList cs), rest) := by
  rw [value?, Text.body_of_spells h rest]
  rfl

/-- A list that is not empty is read by its items. -/
theorem value?_of_items {gap written : List Char} {vs : List Value} (hGap : IsGap gap)
    (h : Spells written (.items vs))
    (hItems : items? depth (written ++ rest).length (written ++ rest) = some (vs, rest)) :
    value? (depth + 1) ('[' :: (gap ++ (written ++ rest))) = some (.list vs, rest) := by
  obtain ⟨c, more, rfl, hSpace, hClosing, -⟩ := h.first
  rw [value?, List.cons_append, skip_gap_cons hGap hSpace]
  split
  · rename_i hSame
    exact absurd (List.cons.inj hSame).1 hClosing
  · rw [List.cons_append] at hItems
    rw [hItems]
    rfl

theorem value?_of_entries {gap written : List Char} {bindings : List (Value × Value)}
    (hGap : IsGap gap) (h : Spells written (.entries bindings))
    (hEntries : entries? depth (written ++ rest).length (written ++ rest) = some (bindings, rest)) :
    value? (depth + 1) ('\x7b' :: (gap ++ (written ++ rest)))
      = some (.map (Table.ofBindings bindings), rest) := by
  obtain ⟨c, more, rfl, hSpace, -, hClosing⟩ := h.first
  rw [value?, List.cons_append, skip_gap_cons hGap hSpace]
  split
  · rename_i hSame
    exact absurd (List.cons.inj hSame).1 hClosing
  · rw [List.cons_append] at hEntries
    rw [hEntries]
    rfl

end Values

/-! ## Items and entries one by one -/

section Steps

variable {gap cs rest : List Char} {depth count : Nat} {v : Value}

theorem items?_of_closing (h : value? depth cs = some (v, gap ++ ']' :: rest)) (hGap : IsGap gap) :
    items? depth (count + 1) cs = some ([v], rest) := by
  rw [items?, h, Option.bind_eq_bind, Option.bind_some]
  dsimp only
  rw [skip_gap_cons hGap (by decide)]
  rfl

theorem items?_of_comma {more : List Char} {vs : List Value}
    (h : value? depth cs = some (v, gap ++ ',' :: more)) (hGap : IsGap gap)
    (hMore : items? depth count (skip more) = some (vs, rest)) :
    items? depth (count + 1) cs = some (v :: vs, rest) := by
  have hComma := skip_gap_cons hGap (show isSpace ',' = false by decide) more
  simp only [items?, h, hComma, hMore, Option.bind_eq_bind, Option.bind_some, Option.pure_def]

theorem entries?_of_closing {key : List Char} {k : Value} (hKey : SpellsKey key k)
    (hSkip : skip cs = cs) (h : value? depth cs = some (v, gap ++ '\x7d' :: rest))
    (hGap : IsGap gap) : entries? depth (count + 1) (key ++ cs) = some ([(k, v)], rest) := by
  obtain ⟨hText, hGap', hGap''⟩ := hKey
  have hColon := skip_gap_cons hGap' (show isSpace ':' = false by decide)
  have hBrace := skip_gap_cons hGap (show isSpace '\x7d' = false by decide) rest
  simp only [List.cons_append, List.append_assoc, entries?, Text.body_of_spells hText, hColon,
    skip_gap hGap'', hSkip, h, hBrace, Option.bind_eq_bind, Option.bind_some, Option.pure_def]

theorem entries?_of_comma {key more : List Char} {k : Value} {bindings : List (Value × Value)}
    (hKey : SpellsKey key k) (hSkip : skip cs = cs)
    (h : value? depth cs = some (v, gap ++ ',' :: more)) (hGap : IsGap gap)
    (hMore : entries? depth count (skip more) = some (bindings, rest)) :
    entries? depth (count + 1) (key ++ cs) = some ((k, v) :: bindings, rest) := by
  obtain ⟨hText, hGap', hGap''⟩ := hKey
  have hColon := skip_gap_cons hGap' (show isSpace ':' = false by decide)
  have hComma := skip_gap_cons hGap (show isSpace ',' = false by decide) more
  simp only [List.cons_append, List.append_assoc, entries?, Text.body_of_spells hText, hColon,
    skip_gap hGap'', hSkip, h, hComma, hMore, Option.bind_eq_bind, Option.bind_some,
    Option.pure_def]

/-- A written part is not cut short by skipping blanks. -/
theorem Spells.skip_append {written : List Char} {part : Part} (h : Spells written part)
    (rest : List Char) : skip (written ++ rest) = written ++ rest := by
  obtain ⟨c, more, rfl, hSpace, -, -⟩ := h.first
  exact skip_cons hSpace (more ++ rest)

end Steps

/-! ## The reader takes the texts of the grammar -/

/-- Whether the reader finds a part where it is written, whatever stands behind it, given bounds
that its length does not exceed. -/
def IsRead (written : List Char) : Part → Prop
  | .value v => ∀ rest depth, Apart rest → written.length < depth →
    value? depth (written ++ rest) = some (v, rest)
  | .items vs => ∀ rest depth count, written.length ≤ depth → written.length ≤ count →
    items? depth count (written ++ rest) = some (vs, rest)
  | .entries bindings => ∀ rest depth count, written.length ≤ depth → written.length ≤ count →
    entries? depth count (written ++ rest) = some (bindings, rest)

theorem isRead_of_spells {written : List Char} {part : Part} (h : Spells written part) :
    IsRead written part := by
  -- a part is shorter than what it is a part of, so bounds that suffice for the whole still suffice
  -- when the reader lowers them by one for its parts
  induction h with
  | word h =>
    intro rest depth _ hDepth
    obtain ⟨depth, rfl⟩ := Nat.exists_eq_add_of_lt hDepth
    exact value?_of_word h rest
  | number h =>
    intro rest depth hRest hDepth
    obtain ⟨depth, rfl⟩ := Nat.exists_eq_add_of_lt hDepth
    exact value?_of_number h hRest
  | @text written cs h =>
    intro rest depth _ hDepth
    obtain ⟨depth, rfl⟩ := Nat.exists_eq_add_of_lt hDepth
    rw [List.cons_append, List.append_assoc]
    exact value?_of_text h rest
  | noItems hGap =>
    intro rest depth _ hDepth
    obtain ⟨depth, rfl⟩ := Nat.exists_eq_add_of_lt hDepth
    rw [List.cons_append, List.append_assoc, value?, List.singleton_append,
      skip_gap_cons hGap (by decide)]
    rfl
  | @list gap written vs hGap h ih =>
    intro rest depth _ hDepth
    obtain ⟨depth, rfl⟩ := Nat.exists_eq_add_of_lt hDepth
    rw [List.cons_append, List.append_assoc]
    refine value?_of_items hGap h (ih rest _ _ ?_ ?_)
    · rw [List.length_cons, List.length_append]
      omega
    · rw [List.length_append]
      omega
  | noEntries hGap =>
    intro rest depth _ hDepth
    obtain ⟨depth, rfl⟩ := Nat.exists_eq_add_of_lt hDepth
    rw [List.cons_append, List.append_assoc, value?, List.singleton_append,
      skip_gap_cons hGap (by decide)]
    rfl
  | @map gap written bindings hGap h ih =>
    intro rest depth _ hDepth
    obtain ⟨depth, rfl⟩ := Nat.exists_eq_add_of_lt hDepth
    rw [List.cons_append, List.append_assoc]
    refine value?_of_entries hGap h (ih rest _ _ ?_ ?_)
    · rw [List.length_cons, List.length_append]
      omega
    · rw [List.length_append]
      omega
  | @lastItem written gap v h hGap ih =>
    intro rest depth count hDepth hCount
    simp only [List.length_append, List.length_singleton] at hDepth hCount
    obtain ⟨count, rfl⟩ := Nat.exists_eq_add_of_lt (show 0 < count by omega)
    simp only [List.append_assoc, List.singleton_append]
    exact items?_of_closing (ih _ depth (apart_gap_cons hGap (by decide) rest) (by omega)) hGap
  | @item written gap gap' more v vs h hGap hGap' hMore ih ihMore =>
    intro rest depth count hDepth hCount
    simp only [List.length_append, List.length_cons] at hDepth hCount
    obtain ⟨count, rfl⟩ := Nat.exists_eq_add_of_lt (show 0 < count by omega)
    simp only [List.append_assoc, List.cons_append]
    refine items?_of_comma (ih _ depth (apart_gap_cons hGap (by decide) _) (by omega)) hGap ?_
    rw [skip_gap hGap', hMore.skip_append]
    exact ihMore rest depth _ (by omega) (by omega)
  | @lastEntry key written gap k v hKey h hGap ih =>
    intro rest depth count hDepth hCount
    simp only [List.length_append, List.length_singleton] at hDepth hCount
    obtain ⟨count, rfl⟩ := Nat.exists_eq_add_of_lt (show 0 < count by omega)
    simp only [List.append_assoc, List.singleton_append]
    exact entries?_of_closing hKey (h.skip_append _)
      (ih _ depth (apart_gap_cons hGap (by decide) rest) (by omega)) hGap
  | @entry key written gap gap' more k v bindings hKey h hGap hGap' hMore ih ihMore =>
    intro rest depth count hDepth hCount
    simp only [List.length_append, List.length_cons] at hDepth hCount
    obtain ⟨count, rfl⟩ := Nat.exists_eq_add_of_lt (show 0 < count by omega)
    simp only [List.append_assoc, List.cons_append]
    refine entries?_of_comma hKey (h.skip_append _)
      (ih _ depth (apart_gap_cons hGap (by decide) _) (by omega)) hGap ?_
    rw [skip_gap hGap', hMore.skip_append]
    exact ihMore rest depth _ (by omega) (by omega)

/-! ## It takes nothing else -/

section Found

variable {depth : Nat}

/-- Whether what the reader takes for a value at some bound is one. -/
def Sound (depth : Nat) : Prop := ∀ cs v rest, value? depth cs = some (v, rest) →
  ∃ written, cs = written ++ rest ∧ Spells written (.value v)

/-- Items begin with a value, and a bracket or a comma tells whether it is the last one. -/
theorem items?_cases (hSound : Sound depth) {count : Nat} {cs rest : List Char} {vs : List Value}
    (h : items? depth (count + 1) cs = some (vs, rest)) :
    ∃ written gap v, Spells written (.value v) ∧ IsGap gap
      ∧ (cs = written ++ (gap ++ ']' :: rest) ∧ vs = [v]
        ∨ ∃ more vs', cs = written ++ (gap ++ ',' :: more) ∧ vs = v :: vs'
          ∧ items? depth count (skip more) = some (vs', rest)) := by
  rw [items?, Option.bind_eq_bind, Option.bind_eq_some_iff] at h
  obtain ⟨⟨v, behind⟩, hValue, h⟩ := h
  obtain ⟨written, rfl, hSpells⟩ := hSound _ _ _ hValue
  dsimp only at h
  split at h
  · rename_i hSkip
    cases h
    obtain ⟨gap, hGap, rfl⟩ := exists_gap_of_skip hSkip
    exact ⟨written, gap, v, hSpells, hGap, .inl ⟨rfl, rfl⟩⟩
  · rename_i hSkip
    simp only [Option.bind_eq_bind, Option.bind_eq_some_iff, Option.pure_def, Option.some.injEq,
      Prod.mk.injEq, Prod.exists] at h
    obtain ⟨vs', _, hMore, rfl, rfl⟩ := h
    obtain ⟨gap, hGap, rfl⟩ := exists_gap_of_skip hSkip
    exact ⟨written, gap, v, hSpells, hGap, .inr ⟨_, vs', rfl, rfl, hMore⟩⟩
  · cases h

theorem exists_spells_of_items? (hSound : Sound depth) {count : Nat} {cs rest : List Char}
    {vs : List Value} (h : items? depth count cs = some (vs, rest)) :
    ∃ written, cs = written ++ rest ∧ Spells written (.items vs) := by
  induction count generalizing cs vs with
  | zero =>
    rw [items?] at h
    cases h
  | succ count ih =>
    obtain ⟨written, gap, v, hSpells, hGap,
      ⟨rfl, rfl⟩ | ⟨more, vs', rfl, rfl, hMore⟩⟩ := items?_cases hSound h
    · exact ⟨_, by simp, .lastItem hSpells hGap⟩
    · obtain ⟨written', hShape, hSpells'⟩ := ih hMore
      obtain ⟨gap', hGap', rfl⟩ := exists_gap_of_skip hShape
      exact ⟨_, by simp, .item hSpells hGap hGap' hSpells'⟩

/-- Entries begin with a key and a value, and a brace or a comma tells whether it is the last
one. -/
theorem entries?_cases (hSound : Sound depth) {count : Nat} {cs rest : List Char}
    {bindings : List (Value × Value)}
    (h : entries? depth (count + 1) cs = some (bindings, rest)) :
    ∃ key written gap k v, SpellsKey key k ∧ Spells written (.value v) ∧ IsGap gap
      ∧ (cs = key ++ (written ++ (gap ++ '\x7d' :: rest)) ∧ bindings = [(k, v)]
        ∨ ∃ more bindings', cs = key ++ (written ++ (gap ++ ',' :: more))
          ∧ bindings = (k, v) :: bindings'
          ∧ entries? depth count (skip more) = some (bindings', rest)) := by
  rw [entries?.eq_def] at h
  dsimp only at h
  split at h
  · rw [Option.bind_eq_bind, Option.bind_eq_some_iff] at h
    obtain ⟨⟨key, behind⟩, hBody, h⟩ := h
    obtain ⟨written, rfl, hText⟩ := Text.exists_spells_of_body hBody
    dsimp only at h
    split at h
    · rename_i hSkip
      obtain ⟨gap, hGap, rfl⟩ := exists_gap_of_skip hSkip
      rw [Option.bind_eq_bind, Option.bind_eq_some_iff] at h
      obtain ⟨⟨v, behind⟩, hValue, h⟩ := h
      obtain ⟨value, hShape, hSpells⟩ := hSound _ _ _ hValue
      obtain ⟨gap', hGap', rfl⟩ := exists_gap_of_skip hShape
      have hKey := SpellsKey.intro hText hGap hGap'
      dsimp only at h
      split at h
      · rename_i hSkip'
        cases h
        obtain ⟨gap'', hGap'', rfl⟩ := exists_gap_of_skip hSkip'
        exact ⟨_, value, gap'', _, v, hKey, hSpells, hGap'', .inl ⟨by simp, rfl⟩⟩
      · rename_i hSkip'
        simp only [Option.bind_eq_bind, Option.bind_eq_some_iff, Option.pure_def,
          Option.some.injEq, Prod.mk.injEq, Prod.exists] at h
        obtain ⟨bindings', _, hMore, rfl, rfl⟩ := h
        obtain ⟨gap'', hGap'', rfl⟩ := exists_gap_of_skip hSkip'
        exact ⟨_, value, gap'', _, v, hKey, hSpells, hGap'',
          .inr ⟨_, bindings', by simp, rfl, hMore⟩⟩
      · cases h
    · cases h
  · cases h

theorem exists_spells_of_entries? (hSound : Sound depth) {count : Nat} {cs rest : List Char}
    {bindings : List (Value × Value)} (h : entries? depth count cs = some (bindings, rest)) :
    ∃ written, cs = written ++ rest ∧ Spells written (.entries bindings) := by
  induction count generalizing cs bindings with
  | zero =>
    rw [entries?] at h
    cases h
  | succ count ih =>
    obtain ⟨key, written, gap, k, v, hKey, hSpells, hGap,
      ⟨rfl, rfl⟩ | ⟨more, bindings', rfl, rfl, hMore⟩⟩ := entries?_cases hSound h
    · exact ⟨_, by simp, .lastEntry hKey hSpells hGap⟩
    · obtain ⟨written', hShape, hSpells'⟩ := ih hMore
      obtain ⟨gap', hGap', rfl⟩ := exists_gap_of_skip hShape
      exact ⟨_, by simp, .entry hKey hSpells hGap hGap' hSpells'⟩

theorem sound (depth : Nat) : Sound depth := by
  -- items and entries are inductions on their count, in which values are sound by this induction
  induction depth with
  | zero =>
    intro cs v rest h
    rw [value?] at h
    cases h
  | succ depth ih =>
    intro cs v rest h
    rw [value?.eq_def] at h
    dsimp only at h
    split at h
    · rename_i other
      simp only [Option.bind_eq_bind, Option.bind_eq_some_iff, Option.pure_def, Option.some.injEq,
        Prod.mk.injEq, Prod.exists] at h
      obtain ⟨text, behind, hBody, rfl, rfl⟩ := h
      obtain ⟨written, rfl, hText⟩ := Text.exists_spells_of_body hBody
      exact ⟨_, by simp, .text hText⟩
    · split at h
      · rename_i hSkip
        cases h
        obtain ⟨gap, hGap, rfl⟩ := exists_gap_of_skip hSkip
        exact ⟨_, by simp, .noItems hGap⟩
      · simp only [Option.bind_eq_bind, Option.bind_eq_some_iff, Option.pure_def,
          Option.some.injEq, Prod.mk.injEq, Prod.exists] at h
        obtain ⟨vs, behind, hItems, rfl, rfl⟩ := h
        obtain ⟨written, hShape, hSpells⟩ := exists_spells_of_items? ih hItems
        obtain ⟨gap, hGap, rfl⟩ := exists_gap_of_skip hShape
        exact ⟨_, by simp, .list hGap hSpells⟩
    · split at h
      · rename_i hSkip
        cases h
        obtain ⟨gap, hGap, rfl⟩ := exists_gap_of_skip hSkip
        exact ⟨_, by simp, .noEntries hGap⟩
      · simp only [Option.bind_eq_bind, Option.bind_eq_some_iff, Option.pure_def,
          Option.some.injEq, Prod.mk.injEq, Prod.exists] at h
        obtain ⟨bindings, behind, hEntries, rfl, rfl⟩ := h
        obtain ⟨written, hShape, hSpells⟩ := exists_spells_of_entries? ih hEntries
        obtain ⟨gap, hGap, rfl⟩ := exists_gap_of_skip hShape
        exact ⟨_, by simp, .map hGap hSpells⟩
    · split at h
      · rename_i found hWord
        cases h
        obtain ⟨written, rfl, hMem⟩ := exists_mem_of_word? hWord
        exact ⟨written, rfl, .word hMem⟩
      · obtain ⟨written, rfl, hNumber⟩ := exists_spells_of_number? h
        exact ⟨written, rfl, .number hNumber⟩

end Found

/-! ## Keys -/

/-- Whether the keys of a map, or of its entries, are texts. -/
def Part.TextKeys : Part → Prop
  | .value (.map bindings) => ∀ binding ∈ bindings, ∃ s, binding.1 = .text s
  | .entries bindings => ∀ binding ∈ bindings, ∃ s, binding.1 = .text s
  | _ => True

theorem SpellsKey.isText {key : List Char} {k : Value} (h : SpellsKey key k) :
    ∃ s, k = .text s := by
  obtain ⟨-, -, -⟩ := h
  exact ⟨_, rfl⟩

/-- JSON knows no other keys. -/
theorem Spells.textKeys {written : List Char} {part : Part} (h : Spells written part) :
    part.TextKeys := by
  induction h with
  | word h =>
    simp only [words, List.mem_cons, Prod.mk.injEq, List.not_mem_nil, or_false] at h
    rcases h with ⟨-, rfl⟩ | ⟨-, rfl⟩ | ⟨-, rfl⟩ | ⟨-, rfl⟩ | ⟨-, rfl⟩ | ⟨-, rfl⟩ <;> trivial
  | number h =>
    obtain ⟨-, -, -, hValue⟩ := h
    unfold ofParts? at hValue
    split at hValue
    · split at hValue
      · cases hValue
      · cases hValue
        trivial
    · cases hValue
      trivial
  | text _ | noItems _ | list _ _ _ | lastItem _ _ _ | item _ _ _ _ _ _ => trivial
  | noEntries _ => exact fun binding hMem => absurd hMem List.not_mem_nil
  | @map gap written bindings _ _ ih =>
    have hNone : ∀ binding ∈ ([] : Bindings), (∃ s, binding.1 = .text s) ∧ True := nofun
    have hTexts := Table.forall_mem_merge (P := fun k => ∃ s, k = .text s) (Q := fun _ => True)
      hNone fun binding hMem => ⟨ih binding hMem, trivial⟩
    exact fun binding hMem => (hTexts binding hMem).1
  | lastEntry hKey _ _ _ =>
    intro binding hMem
    rw [List.mem_singleton.mp hMem]
    exact hKey.isText
  | entry hKey _ _ _ _ _ ihMore => exact List.forall_mem_cons.mpr ⟨hKey.isText, ihMore⟩

/-! ## Whole texts -/

/-- A JSON text: what spells a value, with blanks around it. -/
inductive IsText : List Char → Value → Prop where
  | intro {before written after : List Char} {v : Value} (hBefore : IsGap before)
      (h : Spells written (.value v)) (hAfter : IsGap after) :
      IsText (before ++ (written ++ after)) v

theorem isEmpty_skip_iff {cs : List Char} : (skip cs).isEmpty = true ↔ IsGap cs := by
  rw [List.isEmpty_iff]
  constructor
  · intro hSkip
    obtain ⟨gap, hGap, rfl⟩ := exists_gap_of_skip hSkip
    rw [List.append_nil]
    exact hGap
  · intro hGap
    rw [← List.append_nil cs, skip_gap hGap]
    rfl

/-- A whole text is read exactly if it is a JSON text. -/
theorem read?_eq_some_iff {cs : List Char} {v : Value} : read? cs = some v ↔ IsText cs v := by
  unfold read?
  constructor
  · intro h
    split at h
    · rename_i v' rest hValue
      split at h
      · rename_i hRest
        cases h
        obtain ⟨written, hShape, hSpells⟩ := sound _ _ _ _ hValue
        obtain ⟨gap, hGap, rfl⟩ := exists_gap_of_skip hShape
        exact .intro hGap hSpells (isEmpty_skip_iff.mp hRest)
      · cases h
    · cases h
  · rintro ⟨hBefore, hSpells, hAfter⟩
    rename_i before written after
    have hDepth : written.length < (before ++ (written ++ after)).length + 1 := by
      rw [List.length_append, List.length_append]
      omega
    have hValue := isRead_of_spells hSpells after _ (apart_gap hAfter) hDepth
    rw [skip_gap hBefore, hSpells.skip_append, hValue]
    exact if_pos (isEmpty_skip_iff.mpr hAfter)

/-- The keys of a map that is read are texts. -/
theorem IsText.textKeys {cs : List Char} {entries : List (Value × Value)}
    (h : IsText cs (.map entries)) : ∀ binding ∈ entries, ∃ s, binding.1 = .text s := by
  obtain ⟨-, hSpells, -⟩ := h
  exact hSpells.textKeys

end PageBlocks.Json
