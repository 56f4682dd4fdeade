import PageBlocks.Text.Hex
import PageBlocks.Text.Utf8

/-!
# Digests

The SHA-1 digest of a text's UTF-8 bytes, written as forty lowercase hexadecimal digits. Page
identities, block identities and the file names of stored entries are such digests; everything that
is known about them elsewhere is that they have forty digits (`length_hex`, `isDigit_of_mem_hex`),
apart from the digests of some fixed texts, which are computed with numbers (`ofText_eq`).
-/

set_option autoImplicit false

namespace PageBlocks.Digest.Sha1

open PageBlocks.Text

/-- The five words of the running state. -/
structure State where
  a : UInt32
  b : UInt32
  c : UInt32
  d : UInt32
  e : UInt32

/-- The state before the first chunk. -/
def start : State := ⟨0x67452301, 0xEFCDAB89, 0x98BADCFE, 0x10325476, 0xC3D2E1F0⟩

/-- Rotation to the left by `k` bits, `0 < k < 32`. -/
def rotate (k x : UInt32) : UInt32 := (x <<< k) ||| (x >>> (32 - k))

/-- The big-endian bytes of the message length in bits. -/
def lengthBytes (n : Nat) : Bytes :=
  [56, 48, 40, 32, 24, 16, 8, 0].map fun k => UInt8.ofNat ((n >>> k) % 256)

/-- The message followed by a set bit, zero bits up to eight bytes short of a whole number of
chunks, and its length. -/
def pad (message : Bytes) : Bytes :=
  let zeros := (119 - message.length % 64) % 64
  message ++ 0x80 :: List.replicate zeros 0 ++ lengthBytes (8 * message.length)

/-- Big-endian words. -/
def words : Bytes → List UInt32
  | a :: b :: c :: d :: rest =>
    ((a.toUInt32 <<< 24) ||| (b.toUInt32 <<< 16) ||| (c.toUInt32 <<< 8) ||| d.toUInt32)
      :: words rest
  | _ => []

/-- The eighty schedule words of a chunk, by index. -/
def schedule (chunk : List UInt32) : Array UInt32 :=
  (List.range 64).foldl (fun w i =>
    let at' := fun k => w.getD (i + 16 - k) 0
    w.push (rotate 1 (at' 3 ^^^ at' 8 ^^^ at' 14 ^^^ at' 16))) chunk.toArray

/-- The mixing function and constant of round `t`. -/
def mixer (t : Nat) (b c d : UInt32) : UInt32 × UInt32 :=
  if t < 20 then ((b &&& c) ||| ((~~~ b) &&& d), 0x5A827999)
  else if t < 40 then (b ^^^ c ^^^ d, 0x6ED9EBA1)
  else if t < 60 then ((b &&& c) ||| (b &&& d) ||| (c &&& d), 0x8F1BBCDC)
  else (b ^^^ c ^^^ d, 0xCA62C1D6)

/-- One round with the schedule word `w`. -/
def round (t : Nat) (w : UInt32) (s : State) : State :=
  let (f, k) := mixer t s.b s.c s.d
  ⟨rotate 5 s.a + f + s.e + k + w, s.a, rotate 30 s.b, s.c, s.d⟩

/-- The state after one chunk. -/
def chunk (s : State) (ws : List UInt32) : State :=
  let w := schedule ws
  let r := (List.range 80).foldl (fun s t => round t (w.getD t 0) s) s
  ⟨s.a + r.a, s.b + r.b, s.c + r.c, s.d + r.d, s.e + r.e⟩

/-- The state after `n` chunks of sixteen words. -/
def chunks : Nat → State → List UInt32 → State
  | 0, s, _ => s
  | n + 1, s, ws => chunks n (chunk s (ws.take 16)) (ws.drop 16)

/-- The final state for a message. -/
def digest (message : Bytes) : State :=
  let ws := words (pad message)
  chunks (ws.length / 16) start ws

/-- The forty digits of a message's digest. -/
def hex (message : Bytes) : List Char :=
  let s := digest message
  [s.a, s.b, s.c, s.d, s.e].flatMap fun w => Hex.ofNat 8 w.toNat

/-- The forty digits of a text's digest. -/
def ofText (s : String) : String := String.ofList (hex (Utf8.ofText s))

theorem length_hex (message : Bytes) : (hex message).length = 40 := by
  simp [hex, Hex.length_ofNat]

theorem isDigit_of_mem_hex {message : Bytes} {c : Char} (h : c ∈ hex message) :
    Hex.isDigit c = true := by
  simp only [hex, List.mem_flatMap] at h
  obtain ⟨w, _, hc⟩ := h
  exact Hex.isDigit_of_mem_ofNat hc

/-! ## Numbers instead of words

A digest that has to be known in a proof is computed with natural numbers, which takes a tenth of
the time. The definitions are the ones above; the words of a schedule are put together from the
newest to the oldest one (`hex_eq`). -/

namespace Numeric

/-- The five numbers of the running state. -/
structure State where
  a : Nat
  b : Nat
  c : Nat
  d : Nat
  e : Nat

def rotate (k x : Nat) : Nat := (x <<< k) % UInt32.size ||| (x >>> (32 - k))

def add (x y : Nat) : Nat := (x + y) % UInt32.size

def words : Bytes → List Nat
  | a :: b :: c :: d :: rest =>
    ((a.toNat <<< 24) % UInt32.size ||| (b.toNat <<< 16) % UInt32.size
      ||| (c.toNat <<< 8) % UInt32.size ||| d.toNat) :: words rest
  | _ => []

/-- The word after some others, of which the newest comes first. -/
def next (ws : List Nat) : Nat :=
  rotate 1 (ws.getD 2 0 ^^^ ws.getD 7 0 ^^^ ws.getD 13 0 ^^^ ws.getD 15 0)

/-- More words, of which the newest comes first. -/
def extend : Nat → List Nat → List Nat
  | 0, ws => ws
  | n + 1, ws => extend n (next ws :: ws)

def mixer (t b c d : Nat) : Nat × Nat :=
  if t < 20 then ((b &&& c) ||| ((UInt32.size - 1 - b) &&& d), 0x5A827999)
  else if t < 40 then (b ^^^ c ^^^ d, 0x6ED9EBA1)
  else if t < 60 then ((b &&& c) ||| (b &&& d) ||| (c &&& d), 0x8F1BBCDC)
  else (b ^^^ c ^^^ d, 0xCA62C1D6)

def round (t w : Nat) (s : State) : State :=
  let (f, k) := mixer t s.b s.c s.d
  ⟨add (add (add (add (rotate 5 s.a) f) s.e) k) w, s.a, rotate 30 s.b, s.c, s.d⟩

/-- The rounds from number `t` on. -/
def rounds : Nat → List Nat → State → State
  | _, [], s => s
  | t, w :: ws, s => rounds (t + 1) ws (round t w s)

def chunk (s : State) (ws : List Nat) : State :=
  let r := rounds 0 (extend 64 ws.reverse).reverse s
  ⟨add s.a r.a, add s.b r.b, add s.c r.c, add s.d r.d, add s.e r.e⟩

def chunks : Nat → State → List Nat → State
  | 0, s, _ => s
  | n + 1, s, ws => chunks n (chunk s (ws.take 16)) (ws.drop 16)

/-- The state with numbers for words. -/
def ofWords (s : Sha1.State) : State :=
  ⟨s.a.toNat, s.b.toNat, s.c.toNat, s.d.toNat, s.e.toNat⟩

/-- The forty digits of a message's digest. -/
def hex (message : Bytes) : List Char :=
  let ws := words (pad message)
  let s := chunks (ws.length / 16) (ofWords start) ws
  [s.a, s.b, s.c, s.d, s.e].flatMap fun w => Hex.ofNat 8 w

end Numeric

theorem toNat_rotate {k x : UInt32} (hPos : 0 < k.toNat) (hBound : k.toNat < 32) :
    (rotate k x).toNat = Numeric.rotate k.toNat x.toNat := by
  have hRest : (32 - k).toNat = 32 - k.toNat := by
    rw [UInt32.toNat_sub_of_le]
    · rfl
    · rw [UInt32.le_iff_toNat_le]
      exact Nat.le_of_lt hBound
  have hShort : (32 - k.toNat) % 32 = 32 - k.toNat := Nat.mod_eq_of_lt (by omega)
  rw [rotate, UInt32.toNat_or, UInt32.toNat_shiftLeft, UInt32.toNat_shiftRight, hRest,
    Nat.mod_eq_of_lt hBound, hShort, Numeric.rotate]

theorem toNat_words : ∀ bytes : Bytes, (words bytes).map UInt32.toNat = Numeric.words bytes
  | a :: b :: c :: d :: rest => by
    rw [words, Numeric.words, List.map_cons, toNat_words rest]
    simp
  | [] | [_] | [_, _] | [_, _, _] => rfl

theorem toNat_mixer (t : Nat) (b c d : UInt32) :
    ((mixer t b c d).1.toNat, (mixer t b c d).2.toNat)
      = Numeric.mixer t b.toNat c.toNat d.toNat := by
  unfold mixer Numeric.mixer
  split
  · simp
  · split
    · simp
    · split <;> simp

theorem ofWords_round (t : Nat) (w : UInt32) (s : State) :
    Numeric.ofWords (round t w s) = Numeric.round t w.toNat (Numeric.ofWords s) := by
  have hMixed := toNat_mixer t s.b s.c s.d
  unfold round Numeric.round
  simp only [Numeric.ofWords, ← hMixed]
  simp only [UInt32.toNat_add, Numeric.add]
  rw [toNat_rotate (k := 5) (by decide) (by decide), toNat_rotate (k := 30) (by decide) (by decide)]
  rfl

theorem Numeric.extend_succ (n : Nat) (ws : List Nat) :
    Numeric.extend (n + 1) ws = Numeric.next (Numeric.extend n ws) :: Numeric.extend n ws := by
  induction n generalizing ws with
  | zero => rfl
  | succ n ih => rw [Numeric.extend, ih (Numeric.next ws :: ws), ← Numeric.extend]

/-- Counted from the end, a word of a list of words is one of an array. -/
theorem getD_reverse {w : Array UInt32} {n j : Nat} (hSize : w.size = n + 16) (hBound : j < 16) :
    (w.toList.map UInt32.toNat).reverse.getD j 0 = (w.getD (n + 16 - (j + 1)) 0).toNat := by
  have hInside : n + 16 - (j + 1) < w.size := by omega
  have hLength : (w.toList.map UInt32.toNat).length = n + 16 := by simpa using hSize
  rw [List.getD_eq_getElem?_getD, List.getElem?_reverse (by omega), hLength, List.getElem?_map,
    Array.getElem?_toList, show n + 16 - 1 - j = n + 16 - (j + 1) by omega,
    Array.getD_eq_getD_getElem?, Array.getElem?_eq_getElem hInside]
  rfl

/-- One word of the schedule after another. -/
theorem schedule_steps {chunk : List UInt32} (hLength : chunk.length = 16) (n : Nat) :
    let w := (List.range n).foldl (fun w i =>
      let at' := fun k => w.getD (i + 16 - k) 0
      w.push (rotate 1 (at' 3 ^^^ at' 8 ^^^ at' 14 ^^^ at' 16))) chunk.toArray
    w.size = n + 16 ∧ (w.toList.map UInt32.toNat).reverse
      = Numeric.extend n (chunk.map UInt32.toNat).reverse := by
  induction n with
  | zero => exact ⟨by simpa using hLength, by simp [Numeric.extend]⟩
  | succ n ih =>
    obtain ⟨hSize, hWords⟩ := ih
    rw [List.range_succ, List.foldl_append]
    simp only [List.foldl_cons, List.foldl_nil]
    refine ⟨by rw [Array.size_push, hSize, Nat.add_right_comm], ?_⟩
    rw [Numeric.extend_succ, ← hWords, Array.toList_push, List.map_append, List.reverse_append,
      List.map_singleton, List.reverse_singleton, List.singleton_append, Numeric.next,
      getD_reverse hSize (by decide), getD_reverse hSize (by decide),
      getD_reverse hSize (by decide), getD_reverse hSize (by decide),
      toNat_rotate (by decide) (by decide)]
    simp only [UInt32.toNat_xor]
    rfl

theorem toNat_schedule {chunk : List UInt32} (hLength : chunk.length = 16) :
    (schedule chunk).toList.map UInt32.toNat
      = (Numeric.extend 64 (chunk.map UInt32.toNat).reverse).reverse := by
  rw [← (schedule_steps hLength 64).2, List.reverse_reverse]
  rfl

theorem Numeric.rounds_append (t : Nat) (ws : List Nat) (w : Nat) (s : Numeric.State) :
    Numeric.rounds t (ws ++ [w]) s = Numeric.round (t + ws.length) w (Numeric.rounds t ws s) := by
  induction ws generalizing t s with
  | nil => rfl
  | cons v ws ih =>
    rw [List.cons_append, Numeric.rounds, ih, Numeric.rounds, List.length_cons, Nat.add_assoc,
      Nat.add_comm 1]

/-- The rounds with the first words of a schedule. -/
theorem ofWords_rounds {w : Array UInt32} (s : State) (n : Nat) (hBound : n ≤ w.size) :
    Numeric.ofWords ((List.range n).foldl (fun s t => round t (w.getD t 0) s) s)
      = Numeric.rounds 0 ((w.toList.map UInt32.toNat).take n) (Numeric.ofWords s) := by
  induction n with
  | zero => rfl
  | succ n ih =>
    have hInside : n < w.size := hBound
    have hWord : (w.toList.map UInt32.toNat)[n]? = some (w.getD n 0).toNat := by
      rw [List.getElem?_map, Array.getElem?_toList, Array.getD_eq_getD_getElem?,
        Array.getElem?_eq_getElem hInside]
      rfl
    have hTake : ((w.toList.map UInt32.toNat).take n).length = n := by
      simp [Nat.le_of_lt hInside]
    rw [List.range_succ, List.foldl_append, List.foldl_cons, List.foldl_nil, ofWords_round,
      ih (Nat.le_of_lt hInside), List.take_add_one, hWord, Option.toList_some,
      Numeric.rounds_append, hTake, Nat.zero_add]

theorem ofWords_chunk (s : State) {ws : List UInt32} (hLength : ws.length = 16) :
    Numeric.ofWords (chunk s ws)
      = Numeric.chunk (Numeric.ofWords s) (ws.map UInt32.toNat) := by
  have hSize : (schedule ws).size = 80 := (schedule_steps hLength 64).1
  have hAll : ((schedule ws).toList.map UInt32.toNat).take 80
      = (schedule ws).toList.map UInt32.toNat := List.take_of_length_le (by simp [hSize])
  have hRounds := ofWords_rounds s 80 (Nat.le_of_eq hSize.symm)
  rw [hAll, toNat_schedule hLength] at hRounds
  unfold chunk Numeric.chunk
  rw [← hRounds]
  simp only [Numeric.ofWords, UInt32.toNat_add, Numeric.add]

theorem ofWords_chunks {n : Nat} (s : State) {ws : List UInt32} (hLength : 16 * n ≤ ws.length) :
    Numeric.ofWords (chunks n s ws)
      = Numeric.chunks n (Numeric.ofWords s) (ws.map UInt32.toNat) := by
  induction n generalizing s ws with
  | zero => rfl
  | succ n ih =>
    have hFirst : (ws.take 16).length = 16 := by
      rw [List.length_take]
      omega
    rw [chunks, Numeric.chunks, ih _ (by rw [List.length_drop]; omega), ofWords_chunk _ hFirst,
      List.map_take, List.map_drop]

/-- A digest can be computed with numbers instead of words. -/
theorem hex_eq (message : Bytes) : hex message = Numeric.hex message := by
  have hDigest : Numeric.ofWords (digest message)
      = Numeric.chunks ((Numeric.words (pad message)).length / 16) (Numeric.ofWords start)
          (Numeric.words (pad message)) := by
    rw [digest, ofWords_chunks _ (Nat.mul_div_le _ _), ← toNat_words, List.length_map]
  unfold hex Numeric.hex
  dsimp only
  rw [← hDigest]
  rfl

theorem ofText_eq : ofText = fun s => String.ofList (Numeric.hex (Utf8.ofText s)) :=
  funext fun s => congrArg String.ofList (hex_eq (Utf8.ofText s))

end PageBlocks.Digest.Sha1
