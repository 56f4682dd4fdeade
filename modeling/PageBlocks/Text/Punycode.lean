/-!
# Punycode

Texts with letters beyond ASCII in ASCII alone, as RFC 3492 has it: the ASCII characters first, and
then, in ascending order of the other code points, how far each insertion is from the one before.
Distances are written with digits whose thresholds adapt to the distances so far.
-/

set_option autoImplicit false

namespace PageBlocks.Text.Punycode

/-- The letter or digit of a value below 36. -/
def digit (n : Nat) : Char := Char.ofNat (if n < 26 then 97 + n else 22 + n)

/-- The threshold of the digit at a place, given the bias. -/
def threshold (place bias : Nat) : Nat := min 26 (max 1 (place - bias))

/-- The digits of a distance from a place on; the first argument bounds their number. -/
def digitsFrom (bias : Nat) : Nat → Nat → Nat → List Char
  | 0, _, _ => []
  | more + 1, place, n =>
    let t := threshold place bias
    if n < t then [digit n]
    else digit (t + (n - t) % (36 - t)) :: digitsFrom bias more (place + 36) ((n - t) / (36 - t))

/-- A distance divided down, with the place that this is worth; the first argument bounds the
number of divisions. -/
def scaled : Nat → Nat → Nat → Nat × Nat
  | 0, place, n => (n, place)
  | more + 1, place, n => if 455 < n then scaled more (place + 36) (n / 35) else (n, place)

/-- The bias after a distance, given the number of characters placed so far. -/
def adapt (distance placed : Nat) (isFirst : Bool) : Nat :=
  let n := if isFirst then distance / 700 else distance / 2
  let (n, place) := scaled 64 0 (n + n / placed)
  place + 36 * n / (n + 38)

/-- What the encoding of one code point leaves for the others. -/
structure State where
  /-- The distance that no digits have been written for yet. -/
  distance : Nat
  bias : Nat
  placed : Nat
  written : List Char

/-- The state after one character of the text, while a code point is being inserted. -/
def visit (basic code : Nat) (s : State) (c : Char) : State :=
  if c.toNat < code then { s with distance := s.distance + 1 }
  else if c.toNat = code then
    { distance := 0
      bias := adapt s.distance (s.placed + 1) (s.placed = basic)
      placed := s.placed + 1
      written := s.written ++ digitsFrom s.bias 64 36 s.distance }
  else s

/-- The state after inserting the code points of a list, in ascending order; `next` is the code
point after the last one that was inserted. -/
def insertAll (cs : List Char) (basic : Nat) : Nat → State → List Nat → State
  | _, s, [] => s
  | next, s, code :: rest =>
    let s := { s with distance := s.distance + (code - next) * (s.placed + 1) }
    let s := cs.foldl (visit basic code) s
    insertAll cs basic (code + 1) { s with distance := s.distance + 1 } rest

/-- Insert a code point into an ascending list, once. -/
def insertCode (n : Nat) : List Nat → List Nat
  | [] => [n]
  | m :: rest =>
    if n < m then n :: m :: rest else if n = m then m :: rest else m :: insertCode n rest

/-- A text in ASCII alone. -/
def encode (cs : List Char) : List Char :=
  let basic := cs.filter fun c => c.toNat < 128
  let codes := (cs.filter fun c => 128 ≤ c.toNat).foldl (fun codes c => insertCode c.toNat codes) []
  let start := if basic.isEmpty then [] else basic ++ ['-']
  (insertAll cs basic.length 128 ⟨0, 72, basic.length, start⟩ codes).written

end PageBlocks.Text.Punycode
