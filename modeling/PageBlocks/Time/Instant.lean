import PageBlocks.Number.Binary64
import PageBlocks.Time.Calendar

/-!
# Instants

Points in time with the resolution of a microsecond, counted from the start of the year 1970 in
universal time, and their calendar fields.
-/

set_option autoImplicit false

namespace PageBlocks.Time

open PageBlocks.Number

/-- A point in time: microseconds since the start of 1970. -/
structure Instant where
  micros : Int
  deriving DecidableEq, Repr

/-- A date with a time of day. -/
structure Moment where
  date : Date
  hour : Nat
  minute : Nat
  second : Nat
  micro : Nat
  deriving DecidableEq, Repr

namespace Instant

/-- Microseconds of a second. -/
def perSecond : Nat := 1000000

/-- Microseconds of a day. -/
def perDay : Nat := 86400000000

/-- The day number of 1 January 1970. -/
def epochDay : Nat := 719162

/-- The first instant of the calendar. -/
def first : Instant := ⟨-((epochDay * perDay : Nat) : Int)⟩

/-- The instant behind the last one of the year 9999. -/
def pastLast : Instant := ⟨((3652059 - epochDay : Nat) * perDay : Nat)⟩

/-- Whether an instant is in the calendar, which ends with the year 9999. -/
def inCalendar (t : Instant) : Bool := first.micros ≤ t.micros && t.micros < pastLast.micros

/-- The instant of a whole number of seconds. -/
def ofSeconds (n : Int) : Instant := ⟨n * perSecond⟩

/-- A later instant. -/
def addMicros (t : Instant) (n : Int) : Instant := ⟨t.micros + n⟩

/-- The calendar fields of an instant; before the calendar they are those of its first instant. -/
def toMoment (t : Instant) : Moment :=
  let n := (t.micros + epochDay * perDay).toNat
  let time := n % perDay
  { date := Calendar.ofDayNumber (n / perDay)
    hour := time / 3600000000
    minute := time / 60000000 % 60
    second := time / perSecond % 60
    micro := time % perSecond }

/-- The instant as a double precision number of seconds, the nearest one. -/
def toSeconds (t : Instant) : Binary64 :=
  Binary64.ofRatio (decide (t.micros < 0)) t.micros.natAbs perSecond

end Instant

namespace Moment

/-- The microseconds since the start of the day. -/
def timeOfDay (m : Moment) : Nat :=
  ((m.hour * 60 + m.minute) * 60 + m.second) * Instant.perSecond + m.micro

/-- Whether the fields are in the calendar and on the clock. -/
def isValid (m : Moment) : Bool :=
  Calendar.isValid m.date && m.hour < 24 && m.minute < 60 && m.second < 60
    && m.micro < Instant.perSecond

/-- The instant at which a clock in universal time shows the moment. -/
def toInstant (m : Moment) : Instant :=
  ⟨(Calendar.dayNumber m.date * Instant.perDay + m.timeOfDay : Nat)
    - (Instant.epochDay * Instant.perDay : Nat)⟩

end Moment

end PageBlocks.Time
