/-!
# Decimal integers

Whole numbers as decimal digits, and back. `ofDigits_digits` says that reading what was written
gives the number again.
-/

set_option autoImplicit false

namespace PageBlocks.Number.Decimal

/-- The character of a digit below ten. -/
def digit (n : Nat) : Char := Char.ofNat (48 + n)

/-- The characters `0` to `9`. -/
def isDigit (c : Char) : Bool := 48 ≤ c.toNat && c.toNat ≤ 57

/-- The digits of a natural number, most significant first, without leading zeros. -/
def digits (n : Nat) : List Char :=
  if n < 10 then [digit n] else digits (n / 10) ++ [digit (n % 10)]
termination_by n

/-- The digits of an integer behind its sign; only negative numbers carry one. -/
def ofInt (n : Int) : List Char :=
  if n < 0 then '-' :: digits n.natAbs else digits n.natAbs

/-- The number that digits spell. -/
def ofDigits (cs : List Char) : Nat := cs.foldl (fun n c => 10 * n + (c.toNat - 48)) 0

/-- The digits of `n` behind zeros that fill up to `width`. -/
def padded (width n : Nat) : List Char :=
  let ds := digits n
  List.replicate (width - ds.length) '0' ++ ds

/-- The most digits that a written integer may have to be read. -/
def readLimit : Nat := 4300

/-- The text of an integer. -/
def text (n : Int) : String := String.ofList (ofInt n)

theorem toNat_digit {n : Nat} (h : n < 10) : (digit n).toNat = 48 + n := by
  have table : ∀ m : Fin 10, (digit m.val).toNat = 48 + m.val := by decide
  exact table ⟨n, h⟩

theorem isDigit_digit {n : Nat} (h : n < 10) : isDigit (digit n) = true := by
  have table : ∀ m : Fin 10, isDigit (digit m.val) = true := by decide
  exact table ⟨n, h⟩

/-- A digit is no other character. -/
theorem ne_of_isDigit {c : Char} (h : isDigit c = true) (other : Char)
    (hOther : isDigit other = false) : c ≠ other := by
  rintro rfl
  rw [h] at hOther
  cases hOther

theorem isDigit_of_mem_digits {n : Nat} {c : Char} (h : c ∈ digits n) : isDigit c = true := by
  induction n using digits.induct with
  | case1 n hSmall =>
    rw [digits, if_pos hSmall, List.mem_singleton] at h
    exact h ▸ isDigit_digit hSmall
  | case2 n hLarge ih =>
    rw [digits, if_neg hLarge, List.mem_append, List.mem_singleton] at h
    rcases h with h | h
    · exact ih h
    · exact h ▸ isDigit_digit (Nat.mod_lt _ (by decide))

theorem ofDigits_append_digit (cs : List Char) {d : Nat} (h : d < 10) :
    ofDigits (cs ++ [digit d]) = 10 * ofDigits cs + d := by
  simp [ofDigits, toNat_digit h]

theorem ofDigits_digits (n : Nat) : ofDigits (digits n) = n := by
  fun_induction digits n with
  | case1 n h => simp [ofDigits, toNat_digit h]
  | case2 n h ih =>
    rw [ofDigits_append_digit _ (Nat.mod_lt _ (by decide)), ih]
    omega

end PageBlocks.Number.Decimal
