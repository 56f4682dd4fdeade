import PageBlocks.Proofs.Upkeep.Values

/-!
# Values without markers

Both kinds of markers start with the control character STX. A value is clean if no text in it holds
that character and nothing in it is bound to a page. Clean values print without an STX
(`clean_print`), since quoting writes control characters by their code points, and what a body makes
of clean values alone is clean again.
-/

set_option autoImplicit false

namespace PageBlocks

namespace Value

mutual

/-- Whether a check holds of a value, or, if it is made of others, of all of those. -/
def every (p : Value → Bool) : Value → Bool
  | list items | tuple items => everyItem p items
  | map entries => everyEntry p entries
  | v => p v

/-- Whether a check holds of all items. -/
def everyItem (p : Value → Bool) : List Value → Bool
  | [] => true
  | item :: rest => every p item && everyItem p rest

/-- Whether a check holds of all keys and values. -/
def everyEntry (p : Value → Bool) : List (Value × Value) → Bool
  | [] => true
  | (key, value) :: rest => every p key && every p value && everyEntry p rest

end

mutual

/-- Whether a value is data without an STX in its texts. -/
def isClean : Value → Bool
  | text s => !s.toList.contains '\x02'
  | object name => !name.toList.contains '\x02'
  | list items | tuple items => areClean items
  | map entries => areCleanEntries entries
  | directive _ _ | inserter _ _ => false
  | _ => true

/-- Whether all values are clean. -/
def areClean : List Value → Bool
  | [] => true
  | item :: rest => isClean item && areClean rest

/-- Whether all keys and values are clean. -/
def areCleanEntries : List (Value × Value) → Bool
  | [] => true
  | (key, value) :: rest => isClean key && isClean value && areCleanEntries rest

end

end Value

namespace Deferral

open PageBlocks.Number PageBlocks.Text

/-! ## Printed forms -/

/-- Whether characters are free of STX. -/
def Clean (cs : List Char) : Prop := '\x02' ∉ cs

instance (cs : List Char) : Decidable (Clean cs) := inferInstanceAs (Decidable (¬ '\x02' ∈ cs))

theorem clean_nil : Clean [] := List.not_mem_nil

theorem clean_cons {c : Char} {cs : List Char} : Clean (c :: cs) ↔ c ≠ '\x02' ∧ Clean cs := by
  simp only [Clean, List.mem_cons, not_or, ne_eq, eq_comm]

theorem clean_append {cs ds : List Char} : Clean (cs ++ ds) ↔ Clean cs ∧ Clean ds := by
  simp only [Clean, List.mem_append, not_or]

theorem clean_of_forall {cs : List Char} {p : Char → Bool} (h : ∀ c ∈ cs, p c = true)
    (hMark : p '\x02' = false) : Clean cs := by
  intro hMem
  rw [h _ hMem] at hMark
  cases hMark

theorem Clean.of_subset {cs ds : List Char} (h : Clean ds) (hSub : ∀ c ∈ cs, c ∈ ds) : Clean cs :=
  fun hMem => h (hSub _ hMem)

theorem clean_flatMap {α : Type} {f : α → List Char} {xs : List α} (h : ∀ x ∈ xs, Clean (f x)) :
    Clean (xs.flatMap f) := by
  intro hMem
  obtain ⟨x, hx, hFound⟩ := List.mem_flatMap.mp hMem
  exact h x hx hFound

theorem clean_replicate {n : Nat} {c : Char} (h : c ≠ '\x02') : Clean (List.replicate n c) :=
  fun hMem => h (List.eq_of_mem_replicate hMem).symm

theorem clean_ofNat (width n : Nat) : Clean (Hex.ofNat width n) :=
  clean_of_forall (fun _ hMem => Hex.isDigit_of_mem_ofNat hMem) (by decide)

theorem clean_digits (n : Nat) : Clean (Decimal.digits n) :=
  clean_of_forall (fun _ hMem => Decimal.isDigit_of_mem_digits hMem) (by decide)

theorem clean_padded (width n : Nat) : Clean (Decimal.padded width n) :=
  clean_append.mpr ⟨clean_replicate (by decide), clean_digits n⟩

theorem clean_ofInt (n : Int) : Clean (Decimal.ofInt n) := by
  unfold Decimal.ofInt
  split
  · exact clean_cons.mpr ⟨by decide, clean_digits _⟩
  · exact clean_digits _

theorem clean_digitsOf (m : Nat) (e : Int) : Clean (Shortest.digitsOf m e).digits := by
  unfold Shortest.digitsOf
  simp only []
  split
  · rename_i found n step hFound
    refine (clean_digits n).of_subset fun c hMem => ?_
    have hKept := (List.dropWhile_sublist _).subset (List.mem_reverse.mp hMem)
    exact List.mem_reverse.mp hKept
  · exact clean_cons.mpr ⟨by decide, clean_nil⟩

theorem clean_positional {d : Digits} (h : Clean d.digits) : Clean (Shortest.positional d) := by
  unfold Shortest.positional
  simp only []
  split
  · refine clean_append.mpr ⟨?_, h⟩
    exact clean_cons.mpr ⟨by decide, clean_cons.mpr ⟨by decide, clean_replicate (by decide)⟩⟩
  · split
    · refine clean_append.mpr ⟨clean_append.mpr ⟨h, clean_replicate (by decide)⟩, ?_⟩
      decide
    · refine clean_append.mpr ⟨h.of_subset fun c => List.mem_of_mem_take, ?_⟩
      exact clean_cons.mpr ⟨by decide, h.of_subset fun c => List.mem_of_mem_drop⟩

theorem clean_scientific {d : Digits} (h : Clean d.digits) : Clean (Shortest.scientific d) := by
  unfold Shortest.scientific
  simp only []
  refine clean_append.mpr ⟨?_, clean_cons.mpr ⟨by decide, clean_cons.mpr ⟨?_, clean_padded _ _⟩⟩⟩
  · split
    · rename_i first second rest hDigits
      rw [hDigits] at h
      obtain ⟨hFirst, hRest⟩ := clean_cons.mp h
      exact clean_cons.mpr ⟨hFirst, clean_cons.mpr ⟨by decide, hRest⟩⟩
    · exact h
  · split <;> decide

theorem clean_real (x : Binary64) : Clean (Shortest.characters Value.realLayout x) := by
  have hSign : ∀ negative : Bool, Clean (if negative then ['-'] else []) := by decide
  cases x with
  | nan => decide
  | infinity negative => exact clean_append.mpr ⟨hSign negative, by decide⟩
  | finite negative m e =>
    simp only [Shortest.characters]
    refine clean_append.mpr ⟨hSign negative, ?_⟩
    split
    · decide
    · split
      · exact clean_positional (clean_digitsOf m e)
      · exact clean_scientific (clean_digitsOf m e)

theorem clean_codePoint (n : Nat) : Clean (Quoted.codePoint n) := by
  unfold Quoted.codePoint
  split
  · exact clean_cons.mpr ⟨by decide, clean_cons.mpr ⟨by decide, clean_ofNat _ _⟩⟩
  · split
    · exact clean_cons.mpr ⟨by decide, clean_cons.mpr ⟨by decide, clean_ofNat _ _⟩⟩
    · exact clean_cons.mpr ⟨by decide, clean_cons.mpr ⟨by decide, clean_ofNat _ _⟩⟩

theorem clean_shortEscape {quote c : Char} {escape : List Char} (hQuote : quote ≠ '\x02')
    (h : Quoted.shortEscape? quote c = some escape) : Clean escape := by
  unfold Quoted.shortEscape? at h
  split at h
  · rename_i hSelf
    cases h
    refine clean_cons.mpr ⟨by decide, clean_cons.mpr ⟨?_, clean_nil⟩⟩
    rcases hSelf with rfl | rfl
    · exact hQuote
    · decide
  · split at h
    · cases h
      decide
    · split at h
      · cases h
        decide
      · split at h
        · cases h
          decide
        · cases h

theorem quoteFor_ne (cs : List Char) : Quoted.quoteFor cs ≠ '\x02' := by
  unfold Quoted.quoteFor
  split <;> decide

theorem clean_character {quote : Char} (hQuote : quote ≠ '\x02') (c : Char) :
    Clean (Quoted.character quote c) := by
  unfold Quoted.character
  split
  · rename_i escape hEscape
    exact clean_shortEscape hQuote hEscape
  · split
    · rename_i hPrintable
      refine clean_cons.mpr ⟨?_, clean_nil⟩
      rintro rfl
      exact absurd hPrintable (by decide)
    · exact clean_codePoint _

/-- Quoting leaves no STX, whatever is quoted. -/
theorem clean_quoted (cs : List Char) : Clean (Quoted.characters cs) := by
  have hQuote := quoteFor_ne cs
  refine clean_append.mpr ⟨clean_cons.mpr ⟨hQuote, ?_⟩, clean_cons.mpr ⟨hQuote, clean_nil⟩⟩
  exact clean_flatMap fun c _ => clean_character hQuote c

theorem clean_byte {quote : Char} (hQuote : quote ≠ '\x02') (b : UInt8) :
    Clean (Quoted.byte quote b) := by
  unfold Quoted.byte
  simp only []
  split
  · rename_i escape hEscape
    exact clean_shortEscape hQuote hEscape
  · split
    · rename_i hRange
      have table : ∀ n : Fin 127, 32 ≤ n.val → Char.ofNat n.val ≠ '\x02' := by decide
      exact clean_cons.mpr ⟨table ⟨b.toNat, hRange.2⟩ hRange.1, clean_nil⟩
    · exact clean_codePoint _

theorem clean_bytes (bs : List UInt8) : Clean (Quoted.bytes bs) := by
  have hQuote := quoteFor_ne (bs.map fun b => Char.ofNat b.toNat)
  refine clean_append.mpr ⟨?_, clean_cons.mpr ⟨hQuote, clean_nil⟩⟩
  refine clean_cons.mpr ⟨by decide, clean_cons.mpr ⟨hQuote, ?_⟩⟩
  exact clean_flatMap fun b _ => clean_byte hQuote b

theorem clean_commaSeparated {parts : List (List Char)} (h : ∀ part ∈ parts, Clean part) :
    Clean (Value.commaSeparated parts) := by
  induction parts using Value.commaSeparated.induct with
  | case1 => exact clean_nil
  | case2 part => exact h part List.mem_cons_self
  | case3 part rest hRest ih =>
    rw [Value.commaSeparated]
    · refine clean_append.mpr ⟨h part List.mem_cons_self, ?_⟩
      refine clean_cons.mpr ⟨by decide, clean_cons.mpr ⟨by decide, ?_⟩⟩
      exact ih fun other hMem => h other (List.mem_cons_of_mem _ hMem)
    · exact hRest

theorem clean_label (m : CacheMode) : Clean m.label.toList := by
  cases m <;> decide

section Printed

variable {p : Value → Bool}

mutual

/-- The quoted form of a value holds no STX, unless the name of a host object in it does. -/
theorem clean_quotedChars_of_every
    (hObject : ∀ name, p (.object name) = true → Clean name.toList) :
    ∀ v : Value, v.every p = true → Clean v.quotedChars
  | .null, _ => by decide
  | .bool b, _ => by cases b <;> decide
  | .int n, _ => clean_ofInt n
  | .real x, _ => clean_real x
  | .text s, _ => clean_quoted s.toList
  | .bytes bs, _ => clean_bytes bs
  | .list items, h => by
    have hItems := clean_commaSeparated (clean_quotedItems hObject items h)
    exact clean_append.mpr ⟨clean_cons.mpr ⟨by decide, hItems⟩, by decide⟩
  | .tuple [], _ => by decide
  | .tuple [item], h => by
    have hItem := clean_quotedChars_of_every hObject item
      (by simpa [Value.every, Value.everyItem] using h)
    exact clean_append.mpr ⟨clean_cons.mpr ⟨by decide, hItem⟩, by decide⟩
  | .tuple (item :: next :: rest), h => by
    have hItems := clean_commaSeparated (clean_quotedItems hObject (item :: next :: rest) h)
    exact clean_append.mpr ⟨clean_cons.mpr ⟨by decide, hItems⟩, by decide⟩
  | .map entries, h => by
    have hEntries := clean_commaSeparated (clean_quotedEntries hObject entries h)
    exact clean_append.mpr ⟨clean_cons.mpr ⟨by decide, hEntries⟩, by decide⟩
  | .object name, h =>
    clean_append.mpr ⟨clean_cons.mpr ⟨by decide, hObject name h⟩, by decide⟩
  | .mode m, _ => by
    refine clean_append.mpr ⟨clean_append.mpr ⟨clean_append.mpr ⟨clean_append.mpr
      ⟨by decide, clean_label m⟩, by decide⟩, clean_quoted m.name.toList⟩, by decide⟩
  | .missing, _ => by decide
  | .directive _ _, _ | .inserter _ _, _ => (by decide : Clean "<function>".toList)
  | .builtIn f, _ => by
    refine clean_append.mpr ⟨clean_append.mpr ⟨by decide, ?_⟩, by decide⟩
    cases f <;> decide
  | .range start stop step, _ => by
    have hStop : Clean (',' :: ' ' :: Decimal.ofInt stop) :=
      clean_cons.mpr ⟨by decide, clean_cons.mpr ⟨by decide, clean_ofInt stop⟩⟩
    refine clean_append.mpr ⟨clean_append.mpr ⟨clean_append.mpr ⟨clean_append.mpr
      ⟨by decide, clean_ofInt start⟩, hStop⟩, ?_⟩, by decide⟩
    split
    · exact clean_nil
    · exact clean_cons.mpr ⟨by decide, clean_cons.mpr ⟨by decide, clean_ofInt step⟩⟩

theorem clean_quotedItems
    (hObject : ∀ name, p (.object name) = true → Clean name.toList) :
    ∀ items : List Value, Value.everyItem p items = true →
      ∀ part ∈ Value.quotedItems items, Clean part
  | [], _ => fun _ hMem => absurd hMem List.not_mem_nil
  | item :: rest, h => by
    simp only [Value.everyItem, Bool.and_eq_true] at h
    intro part hMem
    rcases List.mem_cons.mp hMem with rfl | hMem
    · exact clean_quotedChars_of_every hObject item h.1
    · exact clean_quotedItems hObject rest h.2 part hMem

theorem clean_quotedEntries
    (hObject : ∀ name, p (.object name) = true → Clean name.toList) :
    ∀ entries : List (Value × Value), Value.everyEntry p entries = true →
      ∀ part ∈ Value.quotedEntries entries, Clean part
  | [], _ => fun _ hMem => absurd hMem List.not_mem_nil
  | (key, value) :: rest, h => by
    simp only [Value.everyEntry, Bool.and_eq_true] at h
    intro part hMem
    rcases List.mem_cons.mp hMem with rfl | hMem
    · exact clean_append.mpr ⟨clean_quotedChars_of_every hObject key h.1.1,
        clean_cons.mpr ⟨by decide, clean_cons.mpr ⟨by decide,
          clean_quotedChars_of_every hObject value h.1.2⟩⟩⟩
    · exact clean_quotedEntries hObject rest h.2 part hMem

end

/-- Neither does what is printed, if that is no text with one. -/
theorem clean_print_of_every
    (hObject : ∀ name, p (.object name) = true → Clean name.toList)
    (hText : ∀ s, p (.text s) = true → Clean s.toList) {v : Value}
    (h : v.every p = true) : Clean v.print.toList := by
  have hQuoted : Clean v.quoted.toList := by
    rw [Value.quoted, String.toList_ofList]
    exact clean_quotedChars_of_every hObject v h
  cases v with
  | text s => exact hText s h
  | mode m =>
    rw [Value.print, String.toList_append]
    exact clean_append.mpr ⟨by decide, clean_label m⟩
  | missing => decide
  | _ => exact hQuoted

end Printed

mutual

/-- A weaker check holds of all parts, too. -/
theorem every_mono {p q : Value → Bool} (h : ∀ v, p v = true → q v = true) :
    ∀ v : Value, v.every p = true → v.every q = true
  | .list items, hAll | .tuple items, hAll => everyItem_mono h items hAll
  | .map entries, hAll => everyEntry_mono h entries hAll
  | .null, hAll | .bool _, hAll | .int _, hAll | .real _, hAll | .text _, hAll | .bytes _, hAll
  | .object _, hAll | .mode _, hAll | .missing, hAll | .directive _ _, hAll | .inserter _ _, hAll
  | .builtIn _, hAll | .range _ _ _, hAll => h _ hAll

theorem everyItem_mono {p q : Value → Bool} (h : ∀ v, p v = true → q v = true) :
    ∀ items : List Value, Value.everyItem p items = true → Value.everyItem q items = true
  | [], _ => rfl
  | item :: rest, hAll => by
    simp only [Value.everyItem, Bool.and_eq_true] at hAll ⊢
    exact ⟨every_mono h item hAll.1, everyItem_mono h rest hAll.2⟩

theorem everyEntry_mono {p q : Value → Bool} (h : ∀ v, p v = true → q v = true) :
    ∀ entries : List (Value × Value), Value.everyEntry p entries = true →
      Value.everyEntry q entries = true
  | [], _ => rfl
  | (key, value) :: rest, hAll => by
    simp only [Value.everyEntry, Bool.and_eq_true] at hAll ⊢
    exact ⟨⟨every_mono h key hAll.1.1, every_mono h value hAll.1.2⟩,
      everyEntry_mono h rest hAll.2⟩

end

theorem everyItem_iff {p : Value → Bool} {items : List Value} :
    Value.everyItem p items = true ↔ ∀ v ∈ items, v.every p = true := by
  induction items with
  | nil => simp [Value.everyItem]
  | cons item rest ih => simp [Value.everyItem, ih]

theorem everyEntry_iff {p : Value → Bool} {entries : List (Value × Value)} :
    Value.everyEntry p entries = true
      ↔ ∀ entry ∈ entries, entry.1.every p = true ∧ entry.2.every p = true := by
  induction entries with
  | nil => simp [Value.everyEntry]
  | cons entry rest ih =>
    obtain ⟨key, value⟩ := entry
    simp only [Value.everyEntry, Bool.and_eq_true, ih, List.forall_mem_cons]

mutual

theorem every_isClean : ∀ v : Value, v.every Value.isClean = v.isClean
  | .list items | .tuple items => everyItem_isClean items
  | .map entries => everyEntry_isClean entries
  | .null | .bool _ | .int _ | .real _ | .text _ | .bytes _ | .object _ | .mode _ | .missing
  | .directive _ _ | .inserter _ _ | .builtIn _ | .range _ _ _ => rfl

theorem everyItem_isClean : ∀ items : List Value,
    Value.everyItem Value.isClean items = Value.areClean items
  | [] => rfl
  | item :: rest => by rw [Value.everyItem, Value.areClean, every_isClean, everyItem_isClean]

theorem everyEntry_isClean : ∀ entries : List (Value × Value),
    Value.everyEntry Value.isClean entries = Value.areCleanEntries entries
  | [] => rfl
  | (key, value) :: rest => by
    rw [Value.everyEntry, Value.areCleanEntries, every_isClean, every_isClean, everyEntry_isClean]

end

/-- A clean value prints without an STX. -/
theorem clean_print {v : Value} (h : v.isClean = true) : Clean v.print.toList := by
  rw [← every_isClean] at h
  refine clean_print_of_every (fun name hName => ?_) (fun s hText => ?_) h
  · simpa [Value.isClean, Clean] using hName
  · simpa [Value.isClean, Clean] using hText

/-! ## What is made of clean values -/

theorem areClean_iff {items : List Value} :
    Value.areClean items = true ↔ ∀ v ∈ items, v.isClean = true := by
  induction items with
  | nil => simp [Value.areClean]
  | cons item rest ih => simp [Value.areClean, ih]

/-- Whether variables bind clean keys to clean values. -/
def CleanBindings (vars : Bindings) : Prop :=
  ∀ entry ∈ vars, entry.1.isClean = true ∧ entry.2.isClean = true

theorem areCleanEntries_iff {entries : List (Value × Value)} :
    Value.areCleanEntries entries = true ↔ CleanBindings entries := by
  induction entries with
  | nil => simp [Value.areCleanEntries, CleanBindings]
  | cons entry rest ih =>
    obtain ⟨key, value⟩ := entry
    simp only [Value.areCleanEntries, Bool.and_eq_true, ih, CleanBindings, List.forall_mem_cons]

theorem isClean_text {s : String} : (Value.text s).isClean = true ↔ Clean s.toList := by
  simp [Value.isClean, Clean]

theorem isClean_counter (round rounds : Nat) : (Body.counter round rounds).isClean = true := by
  have hText : ∀ n : Nat, Clean (Decimal.text n).toList := by
    intro n
    rw [Decimal.text, String.toList_ofList]
    exact clean_ofInt _
  have hName :
      Clean ("LoopContext " ++ Decimal.text round ++ "/" ++ Decimal.text rounds).toList := by
    rw [String.toList_append, String.toList_append, String.toList_append]
    exact clean_append.mpr ⟨clean_append.mpr ⟨clean_append.mpr ⟨by decide, hText _⟩, by decide⟩,
      hText _⟩
  simpa [Body.counter, Value.isClean, Clean] using hName

/-- What a body makes of clean values is clean. -/
theorem closed_isClean : Upkeep.Closed Value.isClean where
  null := rfl
  missing := rfl
  int _ := rfl
  range _ _ _ := rfl
  builtIn _ := rfl
  counter := isClean_counter
  list _ := areClean_iff
  tuple _ := areClean_iff.mp
  map _ := areCleanEntries_iff
  character s h c hc := by
    rw [isClean_text, String.toList_ofList]
    refine clean_cons.mpr ⟨?_, clean_nil⟩
    rintro rfl
    exact isClean_text.mp h hc
  print v h := isClean_text.mpr (clean_print h)
  join parts h := by
    rw [isClean_text, String.toList_join]
    exact clean_flatMap fun s hMem => isClean_text.mp (h s hMem)

theorem CleanBindings.insert {vars : Bindings} {key value : Value} (h : CleanBindings vars)
    (hKey : key.isClean = true) (hValue : value.isClean = true) :
    CleanBindings (vars.insert key value) :=
  Upkeep.BindingsFit.insert h hKey hValue

theorem CleanBindings.merge {vars more : Bindings} (h : CleanBindings vars)
    (hMore : CleanBindings more) : CleanBindings (Table.merge vars more) :=
  Upkeep.BindingsFit.merge h hMore

theorem cleanBindings_nil : CleanBindings [] := Upkeep.bindingsFit_nil

end Deferral

end PageBlocks
