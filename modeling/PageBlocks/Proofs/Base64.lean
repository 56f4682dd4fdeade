import PageBlocks.Text.Base64

/-!
# What base 64 spells

The written forms of byte strings (`Spells`): groups of four characters, the last one filled up
with `=`. What is written is one of them (`spells_encode`), and the reader takes exactly these,
where a text without filled places may be followed by `=` that fill nothing (`decode_eq_some_iff`).
-/

set_option autoImplicit false

namespace PageBlocks.Text.Base64

/-- A written form of a byte string. The bits of a filled up group that no byte needs may have any
value. -/
inductive Spells : List Char → Bytes → Prop where
  | nil : Spells [] []
  | one {p q : Char} {x y : Nat} (hp : value? p = some x) (hq : value? q = some y) :
    Spells [p, q, '=', '='] [UInt8.ofNat (4 * x + y / 16)]
  | two {p q r : Char} {x y z : Nat} (hp : value? p = some x) (hq : value? q = some y)
    (hr : value? r = some z) :
    Spells [p, q, r, '='] [UInt8.ofNat (4 * x + y / 16), UInt8.ofNat (y % 16 * 16 + z / 4)]
  | group {p q r s : Char} {x y z w : Nat} {cs : List Char} {bytes : Bytes}
    (hp : value? p = some x) (hq : value? q = some y) (hr : value? r = some z)
    (hs : value? s = some w) (h : Spells cs bytes) :
    Spells (p :: q :: r :: s :: cs) (UInt8.ofNat (4 * x + y / 16)
      :: UInt8.ofNat (y % 16 * 16 + z / 4) :: UInt8.ofNat (z % 4 * 64 + w) :: bytes)

/-! ## Characters -/

theorem value?_symbol {n : Nat} (h : n < 64) : value? (symbol n) = some n := by
  have table : ∀ m : Fin 64, value? (symbol m.val) = some m.val := by decide
  exact table ⟨n, h⟩

theorem value?_fill : value? '=' = none := by decide

theorem ne_fill {c : Char} {n : Nat} (h : value? c = some n) : c ≠ '=' := by
  rintro rfl
  rw [value?_fill] at h
  cases h

/-! ## Writing -/

/-- What is written for a byte string spells it. -/
theorem spells_encode (bytes : Bytes) : Spells (encode bytes) bytes := by
  induction bytes using encode.induct with
  | case1 => exact .nil
  | case2 a =>
    have ha := a.toNat_lt
    have hSpells := Spells.one (value?_symbol (n := a.toNat / 4) (by omega))
      (value?_symbol (n := a.toNat % 4 * 16) (by omega))
    have hFirst : 4 * (a.toNat / 4) + a.toNat % 4 * 16 / 16 = a.toNat := by omega
    rw [hFirst, UInt8.ofNat_toNat] at hSpells
    exact hSpells
  | case3 a b =>
    have ha := a.toNat_lt
    have hb := b.toNat_lt
    have hSpells := Spells.two (value?_symbol (n := a.toNat / 4) (by omega))
      (value?_symbol (n := a.toNat % 4 * 16 + b.toNat / 16) (by omega))
      (value?_symbol (n := b.toNat % 16 * 4) (by omega))
    have hFirst : 4 * (a.toNat / 4) + (a.toNat % 4 * 16 + b.toNat / 16) / 16 = a.toNat := by omega
    have hSecond : (a.toNat % 4 * 16 + b.toNat / 16) % 16 * 16 + b.toNat % 16 * 4 / 4
        = b.toNat := by omega
    rw [hFirst, hSecond, UInt8.ofNat_toNat, UInt8.ofNat_toNat] at hSpells
    exact hSpells
  | case4 a b c rest ih =>
    have ha := a.toNat_lt
    have hb := b.toNat_lt
    have hc := c.toNat_lt
    have hSpells := Spells.group (value?_symbol (n := a.toNat / 4) (by omega))
      (value?_symbol (n := a.toNat % 4 * 16 + b.toNat / 16) (by omega))
      (value?_symbol (n := b.toNat % 16 * 4 + c.toNat / 64) (by omega))
      (value?_symbol (n := c.toNat % 64) (by omega)) ih
    have hFirst : 4 * (a.toNat / 4) + (a.toNat % 4 * 16 + b.toNat / 16) / 16 = a.toNat := by omega
    have hSecond : (a.toNat % 4 * 16 + b.toNat / 16) % 16 * 16
        + (b.toNat % 16 * 4 + c.toNat / 64) / 4 = b.toNat := by omega
    have hThird : (b.toNat % 16 * 4 + c.toNat / 64) % 4 * 64 + c.toNat % 64 = c.toNat := by omega
    rw [hFirst, hSecond, hThird, UInt8.ofNat_toNat, UInt8.ofNat_toNat, UInt8.ofNat_toNat]
      at hSpells
    exact hSpells

/-! ## Reading -/

theorem decodeRest_replicate (spare : Nat) : decodeRest (List.replicate spare '=') = some [] := by
  cases spare with
  | zero => rfl
  | succ spare =>
    have hAll : (List.replicate spare '=').all (· = '=') = true := by simp
    rw [List.replicate_succ, decodeRest, if_pos hAll]

/-- A group without filled places is read, and what follows it. -/
theorem decodeRest_group {p q r s : Char} {x y z w : Nat} (hp : value? p = some x)
    (hq : value? q = some y) (hr : value? r = some z) (hs : value? s = some w) (cs : List Char) :
    decodeRest (p :: q :: r :: s :: cs) = (decodeRest cs).map fun bytes =>
      UInt8.ofNat (4 * x + y / 16) :: UInt8.ofNat (y % 16 * 16 + z / 4)
        :: UInt8.ofNat (z % 4 * 64 + w) :: bytes := by
  rw [decodeRest.eq_3 p q r s cs (fun hFill => ne_fill hp hFill)]
  simp only [hp, hq, hr, hs, Option.bind_eq_bind, Option.bind_some, if_neg (ne_fill hr),
    if_neg (ne_fill hs)]
  cases decodeRest cs <;> rfl

/-- The reader takes written forms, and spare `=` behind a complete group. -/
theorem decodeRest_of_spells {written : List Char} {bytes : Bytes} (h : Spells written bytes)
    {spare : Nat} (hSpare : spare = 0 ∨ '=' ∉ written) :
    decodeRest (written ++ List.replicate spare '=') = some bytes := by
  induction h with
  | nil => exact decodeRest_replicate spare
  | one hp hq =>
    have hNone : spare = 0 := hSpare.resolve_right fun hNot => hNot (by simp)
    subst hNone
    simp [decodeRest, ne_fill hp, hp, hq]
  | two hp hq hr =>
    have hNone : spare = 0 := hSpare.resolve_right fun hNot => hNot (by simp)
    subst hNone
    simp [decodeRest, ne_fill hp, hp, hq, hr, ne_fill hr]
  | group hp hq hr hs h ih =>
    have hLater := ih (hSpare.imp_right fun hNot hMem => hNot (by simp [hMem]))
    rw [List.cons_append, List.cons_append, List.cons_append, List.cons_append,
      decodeRest_group hp hq hr hs, hLater]
    rfl

/-- It takes nothing else. -/
theorem exists_spells_of_decodeRest {cs : List Char} {bytes : Bytes}
    (h : decodeRest cs = some bytes) : ∃ written spare, cs = written ++ List.replicate spare '='
      ∧ Spells written bytes ∧ (spare = 0 ∨ '=' ∉ written) := by
  -- nothing is left, or only `=`, or a group and what follows it; all other cases are refused
  fun_induction decodeRest cs generalizing bytes with
  | case1 =>
    cases h
    exact ⟨[], 0, rfl, .nil, .inl rfl⟩
  | case2 rest hAll =>
    cases h
    refine ⟨[], rest.length + 1, ?_, .nil, .inr List.not_mem_nil⟩
    have hSpare : rest = List.replicate rest.length '=' :=
      List.eq_replicate_of_mem fun c hMem => of_decide_eq_true (List.all_eq_true.mp hAll c hMem)
    rw [List.nil_append, List.replicate_succ, ← hSpare]
  | case4 p q r s rest _ ih =>
    simp only [Option.bind_eq_bind, Option.bind_eq_some_iff] at h
    obtain ⟨x, hp, y, hq, h⟩ := h
    split at h
    · rename_i hr
      split at h
      · rename_i hLast
        obtain ⟨rfl, rfl⟩ := hLast
        cases h
        exact ⟨[p, q, r, '='], 0, rfl, hr ▸ .one hp hq, .inl rfl⟩
      · cases h
    · rename_i hr
      rw [Option.bind_eq_some_iff] at h
      obtain ⟨z, hz, h⟩ := h
      split at h
      · rename_i hs
        split at h
        · rename_i hLast
          subst hLast
          cases h
          exact ⟨[p, q, r, s], 0, rfl, hs ▸ .two hp hq hz, .inl rfl⟩
        · cases h
      · simp only [Option.bind_eq_some_iff] at h
        obtain ⟨w, hw, more, hMore, h⟩ := h
        cases h
        obtain ⟨written, spare, hShape, hSpells, hSpare⟩ := ih hMore
        refine ⟨p :: q :: r :: s :: written, spare, by rw [hShape]; rfl,
          .group hp hq hz hw hSpells, hSpare.imp_right fun hNot hMem => ?_⟩
        simp only [List.mem_cons] at hMem
        rcases hMem with h | h | h | h | h
        · exact ne_fill hp h.symm
        · exact ne_fill hq h.symm
        · exact ne_fill hz h.symm
        · exact ne_fill hw h.symm
        · exact hNot h
  | _ => cases h

/-- A written form starts with no `=`. -/
theorem head?_ne_fill {written : List Char} {bytes : Bytes} (h : Spells written bytes) :
    written.head? ≠ some '=' := by
  cases h with
  | nil => exact nofun
  | one hp _ => exact fun hHead => ne_fill hp (Option.some.inj hHead)
  | two hp _ _ => exact fun hHead => ne_fill hp (Option.some.inj hHead)
  | group hp _ _ _ _ => exact fun hHead => ne_fill hp (Option.some.inj hHead)

/-- A text is read exactly if it is a written form, or one without filled places and some `=` behind
it. -/
theorem decode_eq_some_iff {cs : List Char} {bytes : Bytes} :
    decode cs = some bytes ↔ ∃ written spare, cs = written ++ List.replicate spare '='
      ∧ Spells written bytes ∧ (spare = 0 ∨ written ≠ [] ∧ '=' ∉ written) := by
  unfold decode
  constructor
  · intro h
    split at h
    · cases h
    · rename_i hHead
      obtain ⟨written, spare, rfl, hSpells, hSpare⟩ := exists_spells_of_decodeRest h
      refine ⟨written, spare, rfl, hSpells, ?_⟩
      cases spare with
      | zero => exact .inl rfl
      | succ spare =>
        refine .inr ⟨?_, hSpare.resolve_left (Nat.succ_ne_zero spare)⟩
        rintro rfl
        exact hHead rfl
  · rintro ⟨written, spare, rfl, hSpells, hSpare⟩
    have hHead : (written ++ List.replicate spare '=').head? ≠ some '=' := by
      cases written with
      | nil =>
        have hNone : spare = 0 := hSpare.resolve_right fun h => h.1 rfl
        subst hNone
        exact nofun
      | cons c written =>
        have hFirst := head?_ne_fill hSpells
        exact hFirst
    rw [if_neg hHead]
    exact decodeRest_of_spells hSpells (hSpare.imp_right And.right)

/-- What is written is read back. -/
theorem decode_encode (bytes : Bytes) : decode (encode bytes) = some bytes :=
  decode_eq_some_iff.mpr ⟨encode bytes, 0, (List.append_nil _).symm, spells_encode bytes, .inl rfl⟩

end PageBlocks.Text.Base64
