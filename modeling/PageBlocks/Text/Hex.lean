/-!
# Hexadecimal digits

Numbers written with a fixed count of lowercase hexadecimal digits, and byte strings written two
digits a byte.
-/

set_option autoImplicit false

namespace PageBlocks.Text.Hex

/-- The lowercase digit of a value below sixteen. -/
def digit (n : Nat) : Char :=
  if n < 10 then Char.ofNat (48 + n) else Char.ofNat (87 + n)

/-- The lowercase hexadecimal digits. -/
def isDigit (c : Char) : Bool :=
  (48 ≤ c.toNat && c.toNat ≤ 57) || (97 ≤ c.toNat && c.toNat ≤ 102)

/-- The last `width` digits of `n`, most significant first. -/
def ofNat : Nat → Nat → List Char
  | 0, _ => []
  | width + 1, n => ofNat width (n / 16) ++ [digit (n % 16)]

/-- The value of a digit of either case. -/
def value? (c : Char) : Option Nat :=
  if 48 ≤ c.toNat && c.toNat ≤ 57 then some (c.toNat - 48)
  else if 97 ≤ c.toNat && c.toNat ≤ 102 then some (c.toNat - 87)
  else if 65 ≤ c.toNat && c.toNat ≤ 70 then some (c.toNat - 55)
  else none

/-- The value of a digit string, most significant first; none if some character is no digit. -/
def toNat? (cs : List Char) : Option Nat :=
  cs.foldlM (fun n c => (value? c).map (16 * n + ·)) 0

/-- The bytes that pairs of digits spell. -/
def toBytes? : List Char → Option (List UInt8)
  | [] => some []
  | a :: b :: rest => do
    let high ← value? a
    let low ← value? b
    let bytes ← toBytes? rest
    return UInt8.ofNat (16 * high + low) :: bytes
  | [_] => none

/-- Two digits a byte. -/
def ofBytes (bytes : List UInt8) : List Char :=
  bytes.flatMap fun b => ofNat 2 b.toNat

theorem length_ofNat (width n : Nat) : (ofNat width n).length = width := by
  induction width generalizing n with
  | zero => rfl
  | succ width ih => simp [ofNat, ih]

theorem isDigit_digit {n : Nat} (h : n < 16) : isDigit (digit n) = true := by
  have table : ∀ m : Fin 16, isDigit (digit m.val) = true := by decide
  exact table ⟨n, h⟩

theorem isDigit_of_mem_ofNat {width n : Nat} {c : Char} (h : c ∈ ofNat width n) :
    isDigit c = true := by
  induction width generalizing n with
  | zero => simp [ofNat] at h
  | succ width ih =>
    simp only [ofNat, List.mem_append, List.mem_singleton] at h
    rcases h with h | h
    · exact ih h
    · exact h ▸ isDigit_digit (Nat.mod_lt _ (by decide))

/-- Hexadecimal digits are ASCII. -/
theorem toNat_lt_of_mem_ofNat {width n : Nat} {c : Char} (h : c ∈ ofNat width n) :
    c.toNat < 128 := by
  have hDigit := isDigit_of_mem_ofNat h
  simp only [isDigit, Bool.or_eq_true, Bool.and_eq_true, decide_eq_true_eq] at hDigit
  omega

theorem value?_digit {n : Nat} (h : n < 16) : value? (digit n) = some n := by
  have table : ∀ m : Fin 16, value? (digit m.val) = some m.val := by decide
  exact table ⟨n, h⟩

/-- Reading digits gives back the bits that fit in them. -/
theorem toNat?_ofNat (width n : Nat) :
    toNat? (ofNat width n) = some (n % 1 <<< (4 * width)) := by
  induction width generalizing n with
  | zero => simp [ofNat, toNat?, Nat.mod_one]
  | succ width ih =>
    have hLast := value?_digit (Nat.mod_lt n (by decide : 0 < 16))
    have hFront : (ofNat width (n / 16)).foldlM (fun n c => (value? c).map (16 * n + ·)) 0
      = some (n / 16 % 1 <<< (4 * width)) := ih (n / 16)
    have hShift : 1 <<< (4 * (width + 1)) = 16 * 1 <<< (4 * width) := by
      rw [Nat.mul_succ, Nat.shiftLeft_add, Nat.shiftLeft_eq _ 4, Nat.mul_comm]
    simp only [toNat?, ofNat, List.foldlM_append, hFront, List.foldlM_cons, List.foldlM_nil, hLast,
      Option.bind_eq_bind, Option.bind_some, Option.map_some, Option.pure_def, Option.some.injEq]
    rw [hShift, Nat.mod_mul]
    omega

end PageBlocks.Text.Hex
