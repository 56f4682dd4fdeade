import PageBlocks.Text.Utf8

/-!
# Texts from their bytes

The reader of UTF-8 gives back what was written: one character whatever follows it
(`decode_encodeChar`), and so every text (`toText?_ofText`). It takes nothing else: bytes that spell
a text are the bytes of that text (`eq_ofText_of_toText?`).
-/

set_option autoImplicit false

namespace PageBlocks.Text.Utf8

theorem toNat_ofNat {n : Nat} (h : n < 256) : (UInt8.ofNat n).toNat = n := by
  simp only [UInt8.toNat_ofNat']
  omega

theorem tail?_ofNat {n : Nat} (h : n < 64) : tail? (UInt8.ofNat (0x80 + n)) = some n := by
  have hByte : (UInt8.ofNat (0x80 + n)).toNat = 0x80 + n := toNat_ofNat (by omega)
  rw [tail?, hByte, if_pos (by omega), Nat.add_sub_cancel_left]

theorem char?_toNat {floor : Nat} {c : Char} (h : floor ≤ c.toNat) :
    char? floor c.toNat = some c := by
  have hValid : c.toNat.isValidChar := c.valid
  rw [char?, dif_pos hValid, if_pos h]
  rfl

/-- A character is read back from its bytes, whatever follows them. -/
theorem decode_encodeChar (c : Char) (rest : Bytes) :
    decode (encodeChar c ++ rest) = (decode rest).map (c :: ·) := by
  have hBound : c.toNat < 0x110000 := by
    have hValid : c.toNat.isValidChar := c.valid
    rcases hValid with h | h <;> omega
  unfold encodeChar
  simp only []
  -- one case for each number of bytes: the code point is the sum of its digits
  split
  · rename_i h₁
    rw [List.cons_append, List.nil_append, decode.eq_def]
    simp only [toNat_ofNat (Nat.lt_trans h₁ (by decide)), if_pos h₁, Char.ofNat_toNat]
  · split
    · rename_i h₁ h₂
      rw [List.cons_append, List.cons_append, List.nil_append, decode.eq_def]
      have hHead : (UInt8.ofNat (0xC0 + c.toNat / 64)).toNat = 0xC0 + c.toNat / 64 :=
        toNat_ofNat (by omega)
      have hSum : 64 * (0xC0 + c.toNat / 64 - 0xC0) + c.toNat % 64 = c.toNat := by omega
      simp only [hHead]
      rw [if_neg (by omega), if_neg (by omega), if_pos (by omega),
        tail?_ofNat (Nat.mod_lt _ (by decide))]
      simp only [Option.bind_eq_bind, Option.bind_some, hSum, char?_toNat (Nat.le_of_not_lt h₁)]
      cases decode rest <;> rfl
    · split
      · rename_i h₁ h₂ h₃
        rw [List.cons_append, List.cons_append, List.cons_append, List.nil_append, decode.eq_def]
        have hHead : (UInt8.ofNat (0xE0 + c.toNat / 4096)).toNat = 0xE0 + c.toNat / 4096 :=
          toNat_ofNat (by omega)
        have hSum : 4096 * (0xE0 + c.toNat / 4096 - 0xE0) + 64 * (c.toNat / 64 % 64)
            + c.toNat % 64 = c.toNat := by omega
        simp only [hHead]
        rw [if_neg (by omega), if_neg (by omega), if_neg (by omega), if_pos (by omega),
          tail?_ofNat (Nat.mod_lt _ (by decide)), tail?_ofNat (Nat.mod_lt _ (by decide))]
        simp only [Option.bind_eq_bind, Option.bind_some, hSum, char?_toNat (Nat.le_of_not_lt h₂)]
        cases decode rest <;> rfl
      · rename_i h₁ h₂ h₃
        rw [List.cons_append, List.cons_append, List.cons_append, List.cons_append,
          List.nil_append, decode.eq_def]
        have hHead : (UInt8.ofNat (0xF0 + c.toNat / 262144)).toNat = 0xF0 + c.toNat / 262144 :=
          toNat_ofNat (by omega)
        have hSum : 262144 * (0xF0 + c.toNat / 262144 - 0xF0) + 4096 * (c.toNat / 4096 % 64)
            + 64 * (c.toNat / 64 % 64) + c.toNat % 64 = c.toNat := by omega
        simp only [hHead]
        rw [if_neg (by omega), if_neg (by omega), if_neg (by omega), if_neg (by omega),
          if_pos (by omega), tail?_ofNat (Nat.mod_lt _ (by decide)),
          tail?_ofNat (Nat.mod_lt _ (by decide)), tail?_ofNat (Nat.mod_lt _ (by decide))]
        simp only [Option.bind_eq_bind, Option.bind_some, hSum, char?_toNat (Nat.le_of_not_lt h₃)]
        cases decode rest <;> rfl

theorem decode_encode (cs : List Char) : decode (encode cs) = some cs := by
  induction cs with
  | nil => rfl
  | cons c cs ih =>
    rw [encode, List.flatMap_cons, decode_encodeChar]
    exact (congrArg (Option.map (c :: ·)) ih).trans rfl

/-- A text is read back from its bytes. -/
theorem toText?_ofText (s : String) : toText? (ofText s) = some s := by
  rw [toText?, ofText, decode_encode, Option.map_some, String.ofList_toList]

/-! ## Bytes from their text -/

theorem eq_ofNat_of_toNat {b : UInt8} {n : Nat} (h : b.toNat = n) : b = UInt8.ofNat n := by
  rw [← h, UInt8.ofNat_toNat]

theorem eq_of_tail? {b : UInt8} {n : Nat} (h : tail? b = some n) :
    n < 64 ∧ b = UInt8.ofNat (0x80 + n) := by
  unfold tail? at h
  split at h
  · rename_i hRange
    rw [Option.some.injEq] at h
    exact ⟨by omega, eq_ofNat_of_toNat (by omega)⟩
  · cases h

theorem toNat_of_char? {floor n : Nat} {c : Char} (h : char? floor n = some c) :
    c.toNat = n ∧ floor ≤ n := by
  by_cases hValid : n.isValidChar
  · rw [char?, dif_pos hValid] at h
    by_cases hFloor : floor ≤ n
    · rw [if_pos hFloor] at h
      cases h
      exact ⟨rfl, hFloor⟩
    · rw [if_neg hFloor] at h
      cases h
  · rw [char?, dif_neg hValid] at h
    cases h

/-- What reads as some characters is what is written for them: no character has a second form. -/
theorem eq_encode_of_decode {bs : Bytes} {cs : List Char} (h : decode bs = some cs) :
    bs = encode cs := by
  -- one case for each row of the reader, a refusing one after each reading one
  fun_induction decode bs generalizing cs with
  | case1 =>
    cases h
    rfl
  | case2 a rest hOne ih =>
    obtain ⟨found, hFound, rfl⟩ := Option.map_eq_some_iff.mp h
    have hTable : ∀ m : Fin 128, (Char.ofNat m.val).toNat = m.val := by decide
    rw [encode, List.flatMap_cons, encodeChar, hTable ⟨a.toNat, hOne⟩]
    rw [if_pos hOne, UInt8.ofNat_toNat, ih hFound]
    rfl
  | case5 a hNotOne hHead b rest hTwo ih =>
    simp only [Option.bind_eq_bind, Option.bind_eq_some_iff] at h
    obtain ⟨y, hy, c, hc, found, hFound, h⟩ := h
    cases h
    obtain ⟨hyBound, rfl⟩ := eq_of_tail? hy
    obtain ⟨hValue, hFloor⟩ := toNat_of_char? hc
    have ha := eq_ofNat_of_toNat (b := a) (n := 0xC0 + c.toNat / 64) (by omega)
    rw [encode, List.flatMap_cons, encodeChar]
    rw [if_neg (by omega), if_pos (by omega), ← ha, ih hFound]
    have hLast : c.toNat % 64 = y := by omega
    rw [hLast]
    rfl
  | case7 a hNotOne hHead b hNotTwo d rest hThree ih =>
    simp only [Option.bind_eq_bind, Option.bind_eq_some_iff] at h
    obtain ⟨y, hy, z, hz, c, hc, found, hFound, h⟩ := h
    cases h
    obtain ⟨hyBound, rfl⟩ := eq_of_tail? hy
    obtain ⟨hzBound, rfl⟩ := eq_of_tail? hz
    obtain ⟨hValue, hFloor⟩ := toNat_of_char? hc
    have ha := eq_ofNat_of_toNat (b := a) (n := 0xE0 + c.toNat / 4096) (by omega)
    rw [encode, List.flatMap_cons, encodeChar]
    rw [if_neg (by omega), if_neg (by omega), if_pos (by omega), ← ha, ih hFound]
    have hMiddle : c.toNat / 64 % 64 = y := by omega
    have hLast : c.toNat % 64 = z := by omega
    rw [hMiddle, hLast]
    rfl
  | case9 a hNotOne hHead b hNotTwo d hNotThree e rest hFour ih =>
    simp only [Option.bind_eq_bind, Option.bind_eq_some_iff] at h
    obtain ⟨x, hx, y, hy, z, hz, c, hc, found, hFound, h⟩ := h
    cases h
    obtain ⟨hxBound, rfl⟩ := eq_of_tail? hx
    obtain ⟨hyBound, rfl⟩ := eq_of_tail? hy
    obtain ⟨hzBound, rfl⟩ := eq_of_tail? hz
    obtain ⟨hValue, hFloor⟩ := toNat_of_char? hc
    have ha := eq_ofNat_of_toNat (b := a) (n := 0xF0 + c.toNat / 262144) (by omega)
    rw [encode, List.flatMap_cons, encodeChar]
    rw [if_neg (by omega), if_neg (by omega), if_neg (by omega), ← ha, ih hFound]
    have hSecond : c.toNat / 4096 % 64 = x := by omega
    have hThird : c.toNat / 64 % 64 = y := by omega
    have hLast : c.toNat % 64 = z := by omega
    rw [hSecond, hThird, hLast]
    rfl
  | _ => cases h

end PageBlocks.Text.Utf8
