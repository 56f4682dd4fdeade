import PageBlocks.Number.Decimal
import PageBlocks.Time.Instant

/-!
# Time stamps

Instants as text of a fixed width of thirty-two characters,

    YYYY-MM-DDThh:mm:ss.ffffff+00:00

and the reader of stamps, which takes more than is written: the basic forms without separators,
week dates, shorter times, longer fractions, any separator between date and time, and offsets.
A stamp without an offset names no instant.
-/

set_option autoImplicit false

namespace PageBlocks.Time.Stamp

open PageBlocks.Number

/-- The width of a written stamp. -/
def width : Nat := 32

/-- The written form of a moment in universal time. -/
def ofMoment (m : Moment) : List Char :=
  Decimal.padded 4 m.date.year ++ '-' :: Decimal.padded 2 m.date.month ++ '-' ::
    Decimal.padded 2 m.date.day ++ 'T' :: Decimal.padded 2 m.hour ++ ':' ::
    Decimal.padded 2 m.minute ++ ':' :: Decimal.padded 2 m.second ++ '.' ::
    Decimal.padded 6 m.micro ++ "+00:00".toList

/-- The written form of an instant. -/
def write (t : Instant) : List Char := ofMoment t.toMoment

/-- What a stamp says: an instant, or a moment on an unknown clock. -/
inductive Reading where
  | instant (t : Instant)
  | local (m : Moment)
  deriving DecidableEq

/-! ## Reading -/

/-- The number of exactly `n` digits at the start of a text, and what follows. -/
def number? (n : Nat) (cs : List Char) : Option (Nat × List Char) :=
  let ds := cs.take n
  if ds.length = n ∧ ds.all Decimal.isDigit then some (Decimal.ofDigits ds, cs.drop n) else none

/-- The next character, a null character at the end. -/
def peek (cs : List Char) : Char := cs.headD '\x00'

/-- Where the date of a stamp ends. Dates have four forms, `YYYY-MM-DD`, `YYYYMMDD`, `YYYY-Www-D`
and `YYYYWwwD`, the last two with an optional day; the characters behind the year and the week
tell them apart. -/
def dateWidth? (cs : List Char) : Option Nat :=
  let length := cs.length
  let at' := fun i => cs.getD i '\x00'
  if length < 7 then none
  else if length = 7 then some 7
  else if at' 4 = '-' then
    if at' 5 = 'W' then
      if length > 8 ∧ at' 8 = '-' then
        if length = 9 then none
        else if length > 10 ∧ Decimal.isDigit (at' 10) then some 8
        else some 10
      else some 8
    else some 10
  else if at' 4 = 'W' then
    let past := 7 + ((cs.drop 7).takeWhile Decimal.isDigit).length
    if past < 9 then some past else if past % 2 = 0 then some 7 else some 8
  else some 8

/-- The date of a week day. -/
def ofWeek? (year week day : Nat) : Option Date :=
  if (week = 0 ∨ week > 53) ∨ (week = 53 ∧ !Calendar.hasWeek53 year) ∨ day = 0 ∨ day > 7 then none
  else
    let n := Calendar.firstMonday year + ((week - 1) * 7 + (day - 1) : Nat)
    if n < 0 then none else some (Calendar.ofDayNumber n.toNat)

/-- The date that takes up the first `width` characters. -/
def date? (width : Nat) (cs : List Char) : Option Date := do
  let (year, rest) ← number? 4 cs
  let dashed := peek rest = '-'
  let rest := if dashed then rest.drop 1 else rest
  if peek rest = 'W' then
    let (week, rest) ← number? 2 (rest.drop 1)
    if cs.length - rest.length < width then
      if dashed ∧ peek rest ≠ '-' then none
      else
        let (day, _) ← number? 1 (if dashed then rest.drop 1 else rest)
        ofWeek? year week day
    else ofWeek? year week 1
  else
    let (month, rest) ← number? 2 rest
    if dashed ∧ peek rest ≠ '-' then none
    else
      let (day, rest) ← number? 2 (if dashed then rest.drop 1 else rest)
      if cs.length - rest.length = width then some ⟨year, month, day⟩ else none

/-- The fields of a time or of an offset, and whether a character follows the part that was read. -/
structure Clock where
  fields : List Nat
  micro : Nat
  trailing : Bool

/-- The hours, minutes and seconds of a clock, each zero where the stamp leaves it out. -/
def Clock.field (c : Clock) (i : Nat) : Nat := c.fields.getD i 0

/-- The fraction of a second: `room` characters are left. Six digits count, further digits are
passed over. -/
def fraction? (fields : List Nat) (room : Nat) (cs : List Char) : Option Clock := do
  let n := min room 6
  let (value, rest) ← number? n cs
  let rest := rest.dropWhile Decimal.isDigit
  return ⟨fields, value * Nat.pow 10 (6 - n), peek rest ≠ '\x00'⟩

/-- Fields of two digits, at most `more + 1` of them, in the next `room` characters. The first
separator decides whether colons stand between fields. A point or a comma starts the fraction, and
so does whatever stands behind the seconds. A single character behind a field ends the clock. -/
def clockFrom? : Nat → Option Bool → List Nat → Nat → List Char → Option Clock
  | more, colons?, fields, room, cs => do
    let (value, rest) ← number? 2 cs
    let fields := fields ++ [value]
    let c := peek rest
    let colons := colons?.getD (c = ':')
    if room ≤ 3 then return ⟨fields, 0, c ≠ '\x00'⟩
    else if colons ∧ c = ':' then
      match more with
      | 0 => fraction? fields (room - 3) (rest.drop 1)
      | more + 1 => clockFrom? more (some colons) fields (room - 3) (rest.drop 1)
    else if c = '.' ∨ c = ',' then fraction? fields (room - 3) (rest.drop 1)
    else if colons then none
    else
      match more with
      | 0 => fraction? fields (room - 2) rest
      | more + 1 => clockFrom? more (some colons) fields (room - 2) rest

/-- The clock in the first `room` characters. -/
def clock? (room : Nat) (cs : List Char) : Option Clock := clockFrom? 2 none [] room cs

/-- The characters that start an offset. -/
def startsOffset (c : Char) : Bool := c = '+' || c = '-' || c = 'Z'

/-- An offset in microseconds: `Z`, or a sign and a clock. An offset of no whole second counts as
none, and it has to be shorter than a day. -/
def offset? : List Char → Option Int
  | 'Z' :: rest => if peek rest = '\x00' then some 0 else none
  | sign :: rest => do
    let c ← clock? rest.length rest
    if c.trailing then none
    else
      let seconds := c.field 0 * 3600 + c.field 1 * 60 + c.field 2
      let micros := if seconds = 0 then 0 else seconds * Instant.perSecond + c.micro
      if micros < Instant.perDay then
        some (if sign = '-' then -(micros : Int) else micros)
      else none
  | [] => none

/-- A time of day with an optional offset. -/
def time? (cs : List Char) : Option (Clock × Option Int) := do
  let room := (cs.takeWhile (!startsOffset ·)).length
  let c ← clock? room cs
  match cs.drop room with
  | [] => if c.trailing then none else return (c, none)
  | rest => return (c, some (← offset? rest))

/-- What a stamp says, or none if it is malformed or names an impossible date or time. -/
def read? (cs : List Char) : Option Reading := do
  let width ← dateWidth? cs
  let date ← date? width cs
  let (clock, offset) ← match cs.drop width with
    | [] => some (⟨[], 0, false⟩, none)
    | _ :: rest => time? rest
  let m : Moment := ⟨date, clock.field 0, clock.field 1, clock.field 2, clock.micro⟩
  if m.isValid then
    return match offset with
      | some offset => .instant (m.toInstant.addMicros (-offset))
      | none => .local m
  else none

end PageBlocks.Time.Stamp
