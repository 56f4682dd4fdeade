import Mathlib.Data.List.Forall2
import PageBlocks.Json.Writer
import PageBlocks.Proofs.Json.Grammar
import PageBlocks.Proofs.Tables

/-!
# Values that JSON gives back

JSON has lists but no tuples, and only texts as keys, and it bounds the digits of integers. What is
written for a value that stays within this (`Faithful`) is a JSON text for that very value
(`exists_write`). Such a value may hold texts of any characters, and lists and maps of any depth.
-/

set_option autoImplicit false

namespace PageBlocks.Json

open PageBlocks.Number

/-- Entries with texts as keys. -/
def textKeyed (bindings : List (String × Value)) : List (Value × Value) :=
  bindings.map fun binding => (.text binding.1, binding.2)

/-- The values that JSON gives back as they are. -/
inductive Faithful : Value → Prop where
  | null : Faithful .null
  | bool (b : Bool) : Faithful (.bool b)
  | int {n : Int} (hShort : (Decimal.digits n.natAbs).length ≤ Decimal.readLimit) :
      Faithful (.int n)
  | text (s : String) : Faithful (.text s)
  | list {items : List Value} (h : ∀ item ∈ items, Faithful item) : Faithful (.list items)
  | map {bindings : List (String × Value)} (hDistinct : (bindings.map Prod.fst).Nodup)
      (h : ∀ binding ∈ bindings, Faithful binding.2) : Faithful (.map (textKeyed bindings))

/-! ## Keys -/

theorem get?_textKeyed {bindings : List (String × Value)} {key : String}
    (h : key ∉ bindings.map Prod.fst) :
    Table.get? (textKeyed bindings) (.text key) = none := by
  induction bindings with
  | nil => rfl
  | cons binding rest ih =>
    rw [List.map_cons, List.mem_cons, not_or] at h
    have hOther : ¬ (Value.text binding.1 == .text key) = true := by
      rw [Table.beq_text_iff, Value.text.injEq]
      exact Ne.symm h.1
    rw [textKeyed, List.map_cons, Table.get?_cons, if_neg hOther]
    exact ih h.2

theorem merge_textKeyed {done more : List (String × Value)}
    (h : ((done ++ more).map Prod.fst).Nodup) :
    Table.merge (textKeyed done) (textKeyed more) = textKeyed (done ++ more) := by
  induction more generalizing done with
  | nil => rw [List.append_nil]; rfl
  | cons binding more ih =>
    have hNew : binding.1 ∉ done.map Prod.fst := by
      rw [List.map_append, List.nodup_append] at h
      exact fun hMem => h.2.2 _ hMem _ List.mem_cons_self rfl
    have hStep : Table.insert (textKeyed done) (.text binding.1) binding.2
        = textKeyed (done ++ [binding]) := by
      rw [Table.insert_eq_append _ (get?_textKeyed hNew), textKeyed, textKeyed, List.map_append]
      rfl
    have hSplit : done ++ [binding] ++ more = done ++ binding :: more :=
      (List.append_cons done binding more).symm
    rw [← hSplit] at h ⊢
    rw [← ih h, ← hStep]
    rfl

/-- Entries without double keys are a table already. -/
theorem ofBindings_textKeyed {bindings : List (String × Value)}
    (h : (bindings.map Prod.fst).Nodup) :
    Table.ofBindings (textKeyed bindings) = textKeyed bindings := by
  rw [← List.nil_append bindings] at h
  exact merge_textKeyed h

/-! ## Written forms -/

/-- A style whose separators are followed by one and the same gap. -/
structure Style.HasGap (style : Style) (gap : List Char) : Prop where
  isGap : IsGap gap
  comma : style.comma = ',' :: gap
  colon : style.colon = ':' :: gap

/-- Whether what is written for one value is a text of the grammar for another. -/
def IsWritten (style : Style) (v w : Value) : Prop :=
  ∃ written, write style v = .ok written ∧ Spells written (.value w)

/-- Whether two entries have one key, and the value of the first is written as that of the
second. -/
def IsWrittenEntry (style : Style) (b c : String × Value) : Prop :=
  b.1 = c.1 ∧ IsWritten style b.2 c.2

theorem isGap_nil : IsGap [] := nofun

theorem hasGap_payload : Style.payload.HasGap [] := ⟨isGap_nil, rfl, rfl⟩

theorem separated_cons (comma text : List Char) {texts : List (List Char)} (h : texts ≠ []) :
    separated comma (text :: texts) = text ++ comma ++ separated comma texts := by
  obtain ⟨next, more, rfl⟩ := List.exists_cons_of_ne_nil h
  rfl

section Written

variable {style : Style} {gap : List Char}

/-- The items of a list are written one after the other. -/
theorem exists_writeItems (hStyle : style.HasGap gap) {v w : Value} {vs ws : List Value}
    (h : List.Forall₂ (IsWritten style) (v :: vs) (w :: ws)) :
    ∃ texts, writeItems style (v :: vs) = .ok texts ∧ texts ≠ []
      ∧ Spells (separated style.comma texts ++ [']']) (.items (w :: ws)) := by
  induction vs generalizing v w ws with
  | nil =>
    obtain ⟨⟨written, hWrite, hSpells⟩, hNone⟩ := List.forall₂_cons.mp h
    cases hNone
    refine ⟨[written], ?_, List.cons_ne_nil _ _, .lastItem hSpells isGap_nil⟩
    rw [writeItems, hWrite]
    rfl
  | cons next more ih =>
    obtain ⟨⟨written, hWrite, hSpells⟩, hRest⟩ := List.forall₂_cons.mp h
    obtain ⟨w', ws', -, -, rfl⟩ := List.forall₂_cons_left_iff.mp hRest
    obtain ⟨texts, hTexts, hSome, hMore⟩ := ih hRest
    refine ⟨written :: texts, ?_, List.cons_ne_nil _ _, ?_⟩
    · rw [writeItems, hWrite, hTexts]
      rfl
    · rw [separated_cons _ _ hSome, hStyle.comma, List.append_assoc, List.append_assoc]
      rw [hStyle.comma] at hMore
      exact .item hSpells isGap_nil hStyle.isGap hMore

theorem spells_encode (s : String) : Text.Spells (s.toList.flatMap Text.character) s.toList :=
  Text.spells_flatMap_character s.toList

/-- The written form of a key and the colon behind it. -/
theorem spellsKey_encode (hStyle : style.HasGap gap) (s : String) :
    SpellsKey (Text.encode s.toList ++ style.colon) (.text s) := by
  have hKey := SpellsKey.intro (spells_encode s) isGap_nil hStyle.isGap
  rw [String.ofList_toList] at hKey
  have hShape : Text.encode s.toList ++ style.colon
      = '\x22' :: (s.toList.flatMap Text.character ++ '\x22' :: ([] ++ ':' :: gap)) := by
    simp [Text.encode, hStyle.colon]
  rw [hShape]
  exact hKey

/-- The entries of a map are written one after the other. -/
theorem exists_writeEntries (hStyle : style.HasGap gap) {b c : String × Value}
    {bs cs : List (String × Value)}
    (h : List.Forall₂ (IsWrittenEntry style) (b :: bs) (c :: cs)) :
    ∃ texts, (writeValues style (textKeyed (b :: bs))).mapM style.entry = .ok texts ∧ texts ≠ []
      ∧ Spells (separated style.comma texts ++ ['\x7d']) (.entries (textKeyed (c :: cs))) := by
  induction bs generalizing b c cs with
  | nil =>
    obtain ⟨⟨hKey, written, hWrite, hSpells⟩, hNone⟩ := List.forall₂_cons.mp h
    cases hNone
    refine ⟨[Text.encode b.1.toList ++ style.colon ++ written], ?_, List.cons_ne_nil _ _, ?_⟩
    · simp only [textKeyed, List.map_cons, List.map_nil, writeValues, hWrite]
      rfl
    · rw [separated, List.append_assoc, hKey]
      exact .lastEntry (spellsKey_encode hStyle c.1) hSpells isGap_nil
  | cons next more ih =>
    obtain ⟨⟨hKey, written, hWrite, hSpells⟩, hRest⟩ := List.forall₂_cons.mp h
    obtain ⟨c', cs', -, -, rfl⟩ := List.forall₂_cons_left_iff.mp hRest
    obtain ⟨texts, hTexts, hSome, hMore⟩ := ih hRest
    refine ⟨(Text.encode b.1.toList ++ style.colon ++ written) :: texts, ?_,
      List.cons_ne_nil _ _, ?_⟩
    · have hEntry : style.entry (.text b.1, write style b.2)
          = .ok (Text.encode b.1.toList ++ style.colon ++ written) := by
        rw [hWrite]
        rfl
      rw [textKeyed, List.map_cons, writeValues, List.mapM_cons, hEntry]
      rw [textKeyed] at hTexts
      rw [hTexts]
      rfl
    · rw [separated_cons _ _ hSome, hStyle.comma, hKey]
      rw [hStyle.comma] at hMore
      simp only [List.append_assoc]
      rw [← List.append_assoc (Text.encode _)]
      exact .entry (spellsKey_encode hStyle c.1) hSpells isGap_nil hStyle.isGap hMore

/-- A text is written as itself. -/
theorem isWritten_text (style : Style) (s : String) : IsWritten style (.text s) (.text s) := by
  have hSpells := Spells.text (spells_encode s)
  rw [String.ofList_toList] at hSpells
  exact ⟨_, rfl, hSpells⟩

theorem isWritten_list (hStyle : style.HasGap gap) {vs ws : List Value}
    (h : List.Forall₂ (IsWritten style) vs ws) : IsWritten style (.list vs) (.list ws) := by
  cases h with
  | nil => exact ⟨_, rfl, .noItems isGap_nil⟩
  | cons hFirst hRest =>
    obtain ⟨texts, hTexts, -, hSpells⟩ := exists_writeItems hStyle (.cons hFirst hRest)
    have hList := Spells.list isGap_nil hSpells
    refine ⟨'[' :: (separated style.comma texts ++ [']']), ?_, hList⟩
    rw [write, hTexts]
    rfl

/-- A map is written entry by entry in the order of the style. -/
theorem isWritten_map (hStyle : style.HasGap gap) {entries : List (Value × Value)}
    {bs cs : List (String × Value)}
    (hOrder : style.order (writeValues style entries) = .ok (writeValues style (textKeyed bs)))
    (h : List.Forall₂ (IsWrittenEntry style) bs cs) (hDistinct : (cs.map Prod.fst).Nodup) :
    IsWritten style (.map entries) (.map (textKeyed cs)) := by
  cases h with
  | nil =>
    refine ⟨['\x7b', '\x7d'], ?_, .noEntries isGap_nil⟩
    rw [write, hOrder]
    rfl
  | cons hFirst hRest =>
    obtain ⟨texts, hTexts, -, hSpells⟩ := exists_writeEntries hStyle (.cons hFirst hRest)
    have hMap := Spells.map isGap_nil hSpells
    rw [ofBindings_textKeyed hDistinct] at hMap
    refine ⟨'\x7b' :: (separated style.comma texts ++ ['\x7d']), ?_, hMap⟩
    rw [write, hOrder]
    change ((writeValues style _).mapM style.entry >>= fun texts =>
      pure ('\x7b' :: separated style.comma texts ++ ['\x7d'])) = _
    rw [hTexts]
    rfl

end Written

theorem isWritten_of_faithful {v : Value} (h : Faithful v) : IsWritten Style.payload v v := by
  induction h with
  | null => exact ⟨_, rfl, .word (by simp [words])⟩
  | bool b => cases b <;> exact ⟨_, rfl, .word (by simp [words])⟩
  | int hShort => exact ⟨_, rfl, .number (spells_ofInt hShort)⟩
  | text s => exact isWritten_text _ s
  | list h ih => exact isWritten_list hasGap_payload (List.forall₂_same.mpr ih)
  | map hDistinct h ih =>
    refine isWritten_map hasGap_payload rfl ?_ hDistinct
    exact List.forall₂_same.mpr fun binding hMem => ⟨rfl, ih binding hMem⟩

/-- A written text of the grammar is a JSON text. -/
theorem IsWritten.isText {style : Style} {v w : Value} (h : IsWritten style v w) :
    ∃ written, write style v = .ok written ∧ IsText written w := by
  obtain ⟨written, hWrite, hSpells⟩ := h
  have hText := IsText.intro isGap_nil hSpells isGap_nil
  rw [List.nil_append, List.append_nil] at hText
  exact ⟨written, hWrite, hText⟩

/-- What is written for a faithful value is a JSON text for that value. -/
theorem exists_write {v : Value} (h : Faithful v) :
    ∃ written, write Style.payload v = .ok written ∧ IsText written v :=
  (isWritten_of_faithful h).isText

/-- So it is read as that value. -/
theorem exists_write_read {v : Value} (h : Faithful v) :
    ∃ written, write Style.payload v = .ok written ∧ read? written = some v := by
  obtain ⟨written, hWrite, hText⟩ := exists_write h
  exact ⟨written, hWrite, read?_eq_some_iff.mpr hText⟩

end PageBlocks.Json
