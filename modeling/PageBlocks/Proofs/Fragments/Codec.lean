import Mathlib
import PageBlocks.Fragment.Registry
import PageBlocks.Proofs.Base64
import PageBlocks.Proofs.Deferral.Layout
import PageBlocks.Proofs.Json.Writing
import PageBlocks.Proofs.Utf8

/-!
# What tags carry

A payload is the JSON text of a list of a kind and its arguments, in UTF-8 and base 64 (`IsTag`).
The payloads of this form are the only ones that are decoded, and all others give the same fault
(`decode_iff`): not even a text of two characters or a map of two entries, which have two items as
well, passes for a kind and its arguments. What is encoded with arguments that JSON gives back is
decoded to just these arguments (`decode_of_encode`).
-/

set_option autoImplicit false

namespace PageBlocks.Fragment

open PageBlocks.Number PageBlocks.Text

/-! ## The form of payloads -/

/-- The payloads of a kind and its arguments. What the last group of characters leaves unused may
have any value, and a text without filled up places may be followed by `=` that fill nothing. -/
inductive IsTag : List Char → String → List Value → Prop where
  | intro {symbols written : List Char} {spare : Nat} {kind : String} {arguments : List Value}
      (hSymbols : Base64.Spells symbols (Utf8.encode written))
      (hSpare : spare = 0 ∨ symbols ≠ [] ∧ '=' ∉ symbols)
      (hWritten : Json.IsText written (.list [.text kind, .list arguments])) :
      IsTag (symbols ++ List.replicate spare '=') kind arguments

/-- Of the values that JSON spells only a list gives a kind and arguments. -/
theorem pair?_eq_some_iff {written : List Char} {v : Value} (hText : Json.IsText written v)
    {kind : String} {arguments : List Value} :
    pair? v = some (.text kind, .list arguments) ↔ v = .list [.text kind, .list arguments] := by
  constructor
  · intro h
    unfold pair? at h
    split at h
    · cases h
      rfl
    · -- the keys of a map are texts, so the second one is no list
      rename_i a b
      simp only [Option.some.injEq, Prod.mk.injEq] at h
      obtain ⟨s, hKey⟩ := hText.textKeys b (by simp)
      rw [hKey] at h
      cases h.2
    · -- the characters of a text are texts
      split at h
      · cases h
      · cases h
    · cases h
  · rintro rfl
    rfl

/-- A payload is decoded exactly if it has the form of one. -/
theorem decode?_eq_some_iff {payload : List Char} {kind : String} {arguments : List Value} :
    decode? payload = some (kind, arguments) ↔ IsTag payload kind arguments := by
  unfold decode?
  constructor
  · intro h
    simp only [Option.bind_eq_bind, Option.bind_eq_some_iff] at h
    obtain ⟨bytes, hBytes, written, hUtf8, v, hRead, pair, hPair, h⟩ := h
    split at h
    · cases h
      have hText := Json.read?_eq_some_iff.mp hRead
      obtain ⟨symbols, spare, rfl, hSymbols, hSpare⟩ := Base64.decode_eq_some_iff.mp hBytes
      rw [Utf8.eq_encode_of_decode hUtf8] at hSymbols
      rw [(pair?_eq_some_iff hText).mp hPair] at hText
      exact .intro hSymbols hSpare hText
    · cases h
  · rintro ⟨hSymbols, hSpare, hWritten⟩
    have hBytes := Base64.decode_eq_some_iff.mpr ⟨_, _, rfl, hSymbols, hSpare⟩
    simp only [hBytes, Utf8.decode_encode, Json.read?_eq_some_iff.mpr hWritten,
      Option.bind_eq_bind, Option.bind_some, pair?]

theorem decode_eq_ok_iff {payload : List Char} {kind : String} {arguments : List Value} :
    decode payload = .ok (kind, arguments) ↔ IsTag payload kind arguments := by
  rw [← decode?_eq_some_iff, decode]
  cases decode? payload with
  | none => simp
  | some found => simp

/-- What stands between the markers of a tag holds neither of the control characters. -/
theorem count_tagOf {bytes : Bytes} {c : Char} (h : Deferral.isSymbol c = false) :
    (tagOf (Base64.encode bytes)).count c = opening.count c + closing.count c := by
  have hNone : (Base64.encode bytes).count c = 0 := by
    rw [List.count_eq_zero]
    intro hMem
    rw [Deferral.isSymbol_of_mem_encode c hMem] at h
    cases h
  rw [tagOf, List.count_append, List.count_append, hNone]
  omega

/-- Arguments that JSON gives back have a payload, and it is decoded to them. -/
theorem exists_payload {kind : String} {arguments : List Value}
    (hArguments : ∀ v ∈ arguments, Json.Faithful v) :
    ∃ bytes, payload? (.text kind) arguments = some (Base64.encode bytes)
      ∧ decode (Base64.encode bytes) = .ok (kind, arguments) := by
  have hItems : ∀ v ∈ [Value.text kind, .list arguments], Json.Faithful v := by
    rw [List.forall_mem_cons, List.forall_mem_singleton]
    exact ⟨.text kind, .list hArguments⟩
  obtain ⟨written, hWrite, hText⟩ := Json.exists_write (.list hItems)
  refine ⟨Utf8.encode written, ?_, ?_⟩
  · rw [payload?, hWrite]
    rfl
  · have hTag := IsTag.intro (Base64.spells_encode (Utf8.encode written)) (.inl rfl) hText
    rw [List.replicate_zero, List.append_nil] at hTag
    exact decode_eq_ok_iff.mpr hTag

/-- A tag of a registered kind with arguments that JSON gives back stands between its own two
markers, and gives back the kind and the arguments. -/
theorem decode_of_encode (registry : Registry) {kind : String} {arguments : List Value}
    (hKind : kind ∈ registry.keys) (hArguments : ∀ v ∈ arguments, Json.Faithful v) :
    ∃ tag payload, registry.encode (.text kind) arguments = .ok tag
      ∧ tag.toList = opening ++ payload ++ closing
      ∧ tag.toList.count '\x02' = 1 ∧ tag.toList.count '\x03' = 1
      ∧ decode payload = .ok (kind, arguments) := by
  obtain ⟨bytes, hPayload, hDecode⟩ := exists_payload hArguments
  refine ⟨String.ofList (tagOf (Base64.encode bytes)), Base64.encode bytes, ?_, ?_, ?_, ?_, hDecode⟩
  · obtain ⟨found, hFound⟩ : ∃ found, registry.get? kind = some found := by
      rw [← Option.isSome_iff_exists, ← Option.ne_none_iff_isSome]
      exact fun hNone => Table.get?_eq_none_iff.mp hNone hKind
    have hFind : registry.find? (.text kind) = .ok (some found) := by
      rw [Registry.find?, hFound]
    rw [Registry.encode, hFind]
    simp only [bind, Except.bind, hPayload]
    rfl
  · rw [String.toList_ofList, tagOf]
  · rw [String.toList_ofList, count_tagOf (by decide)]
    decide
  · rw [String.toList_ofList, count_tagOf (by decide)]
    decide

/-- A map that holds a list and a negative integer, and a text beyond ASCII. -/
def nestedArguments : List Value :=
  [.map (Json.textKeyed [("é", .int (-12)), ("b", .list [.null, .bool true])]), .text "\n𝄞"]

theorem faithful_nestedArguments : ∀ v ∈ nestedArguments, Json.Faithful v := by
  have hDigits : (Decimal.digits (-12 : Int).natAbs).length ≤ Decimal.readLimit := by
    simp [Decimal.digits, Decimal.readLimit]
  have hList : Json.Faithful (.list [.null, .bool true]) := by
    refine .list ?_
    rw [List.forall_mem_cons, List.forall_mem_singleton]
    exact ⟨.null, .bool true⟩
  rw [nestedArguments, List.forall_mem_cons, List.forall_mem_singleton]
  refine ⟨.map (by decide) ?_, .text _⟩
  rw [List.forall_mem_cons, List.forall_mem_singleton]
  exact ⟨.int hDigits, hList⟩

theorem decode_of_encode_of_nested : "var" ∈ Registry.builtIn.keys
    ∧ (∀ v ∈ nestedArguments, Json.Faithful v)
    ∧ ∃ tag payload, Registry.builtIn.encode (.text "var") nestedArguments = .ok tag
      ∧ tag.toList = opening ++ payload ++ closing
      ∧ tag.toList.count '\x02' = 1 ∧ tag.toList.count '\x03' = 1
      ∧ decode payload = .ok ("var", nestedArguments) :=
  ⟨by decide, faithful_nestedArguments,
    decode_of_encode Registry.builtIn (by decide) faithful_nestedArguments⟩

end PageBlocks.Fragment
