import PageBlocks.Fault
import PageBlocks.Time.Instant

/-!
# Lifetimes

When an entry stored now expires. A lifetime is a number of seconds. Entries in memory add it to
the time in double precision; entries in files add it to the instant, in whole microseconds, and
have to expire within the calendar.
-/

set_option autoImplicit false

namespace PageBlocks.Cache

open PageBlocks.Number PageBlocks.Time

/-- How long an entry lives if nothing else is said: one hour. -/
def defaultLifetime : Value := .int 3600

/-- A lifetime as a double. -/
def lifetimeSeconds : Value → Except Fault Binary64
  | .bool b => .ok (Binary64.ofInt (if b then 1 else 0))
  | .int n =>
    match Binary64.ofInt n with
    | .infinity _ => .error (.host .outOfRange)
    | x => .ok x
  | .real x => .ok x
  | .missing => .error (.host .undefinedName)
  | _ => .error (.host .type)

/-- The second at which an entry expires that is stored now. -/
def expirySecond (now : Instant) (lifetime : Value) : Except Fault Binary64 :=
  (lifetimeSeconds lifetime).map now.toSeconds.add

/-- The longest lifetime that a file entry can be given, in days. -/
def longestDays : Nat := 999999999

/-- A lifetime in microseconds. -/
def lifetimeMicros : Value → Except Fault Int
  | .bool b => .ok (if b then Instant.perSecond else 0)
  | .int n => .ok (n * Instant.perSecond)
  | .real .nan => .error (.value .lifetimeNotANumber)
  | .real x =>
    match x.toMicros? with
    | some n => .ok n
    | none => .error (.host .outOfRange)
  | _ => .error (.host .type)

/-- The instant at which an entry expires that is stored now. -/
def expiryInstant (now : Instant) (lifetime : Value) : Except Fault Instant := do
  let micros ← lifetimeMicros lifetime
  let days := Int.fdiv micros Instant.perDay
  let expiry := now.addMicros micros
  if -(longestDays : Int) ≤ days ∧ days ≤ longestDays ∧ expiry.inCalendar then return expiry
  else throw (.host .outOfRange)

end PageBlocks.Cache
