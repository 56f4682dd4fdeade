/-!
# Calendar

The proleptic Gregorian calendar. Days count from 1 January of the year 1, which is day 0. A day
number is split into a year and a day of that year, and that into a month and a day of the month;
`total_take_splitMonths` says that the second step loses no day.
-/

set_option autoImplicit false

namespace PageBlocks.Time

/-- A day of the calendar. -/
structure Date where
  year : Nat
  month : Nat
  day : Nat
  deriving DecidableEq, Repr

namespace Calendar

/-- Leap years. -/
def isLeap (year : Nat) : Bool := year % 4 = 0 && (year % 100 ≠ 0 || year % 400 = 0)

/-- The days before 1 January of a year. -/
def daysBefore (year : Nat) : Nat :=
  let y := year - 1
  365 * y + y / 4 - y / 100 + y / 400

/-- The lengths of the twelve months of a year. -/
def monthLengths (year : Nat) : List Nat :=
  [31, if isLeap year then 29 else 28, 31, 30, 31, 30, 31, 31, 30, 31, 30, 31]

/-- The year of a day number: an estimate from the mean length of a year, off by at most one. -/
def yearOf (n : Nat) : Nat :=
  let estimate := n * 400 / 146097 + 1
  if n < daysBefore estimate then estimate - 1
  else if daysBefore (estimate + 1) ≤ n then estimate + 1
  else estimate

/-- How many whole months fit into a count of days, and the days left over. -/
def splitMonths : List Nat → Nat → Nat × Nat
  | [], n => (0, n)
  | length :: rest, n =>
    if n < length then (0, n)
    else
      let (months, days) := splitMonths rest (n - length)
      (months + 1, days)

/-- The date of a day number. -/
def ofDayNumber (n : Nat) : Date :=
  let year := yearOf n
  let (months, days) := splitMonths (monthLengths year) (n - daysBefore year)
  ⟨year, months + 1, days + 1⟩

/-- The days of some months together. -/
def total : List Nat → Nat
  | [] => 0
  | length :: rest => length + total rest

/-- The days of a year before the given month. -/
def daysBeforeMonth (year month : Nat) : Nat := total ((monthLengths year).take (month - 1))

/-- The day number of a date. -/
def dayNumber (d : Date) : Nat := daysBefore d.year + daysBeforeMonth d.year d.month + (d.day - 1)

/-- The days of a month. -/
def monthLength (year month : Nat) : Nat := (monthLengths year).getD (month - 1) 0

/-- Whether a date is in the calendar. -/
def isValid (d : Date) : Bool :=
  1 ≤ d.year && d.year ≤ 9999 && 1 ≤ d.month && d.month ≤ 12 && 1 ≤ d.day
    && d.day ≤ monthLength d.year d.month

/-- The day of the week, Monday being 0. -/
def weekday (n : Nat) : Nat := n % 7

/-- The day of the year, 1 January being 0. -/
def dayOfYear (d : Date) : Nat := daysBeforeMonth d.year d.month + (d.day - 1)

/-- The day number of the Monday of the first week of a year: the week that holds its first
Thursday. The week may start in the year before, so the number is an integer. -/
def firstMonday (year : Nat) : Int :=
  let first := daysBefore year
  let w := weekday first
  (first : Int) - w + (if w > 3 then 7 else 0)

/-- Whether a year has a week 53: its first day is a Thursday, or a Wednesday in a leap year. -/
def hasWeek53 (year : Nat) : Bool :=
  let w := weekday (daysBefore year)
  w = 3 || (w = 2 && isLeap year)

/-- The week-numbering year and the week of a day. -/
def weekOf (n : Nat) : Nat × Nat :=
  let year := yearOf n
  let at' : Nat → Int := fun y => (n : Int) - firstMonday y
  if at' year < 0 then (year - 1, (at' (year - 1)).toNat / 7 + 1)
  else if 0 ≤ at' (year + 1) then (year + 1, (at' (year + 1)).toNat / 7 + 1)
  else (year, (at' year).toNat / 7 + 1)

theorem total_take_splitMonths (lengths : List Nat) (n : Nat) :
    total (lengths.take (splitMonths lengths n).1) + (splitMonths lengths n).2 = n := by
  induction lengths generalizing n with
  | nil => simp [splitMonths, total]
  | cons length rest ih =>
    by_cases h : n < length
    · simp [splitMonths, total, h]
    · have := ih (n - length)
      simp only [splitMonths, h, if_false, List.take_succ_cons, total]
      omega

end Calendar

end PageBlocks.Time
