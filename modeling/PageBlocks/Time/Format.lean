import PageBlocks.Number.Decimal
import PageBlocks.Time.Instant

/-!
# Time formats

Texts with fields of an instant in them. A field is a percent sign and a letter. Between them may
stand flags, which change how the field is filled up and its case, a width, and the letter of an
alternative form, in this order. English names are used throughout, and the clock is in universal
time. What is no field stands for itself.
-/

set_option autoImplicit false

namespace PageBlocks.Time.Format

open PageBlocks.Number

/-- The days of the week from Monday on. -/
def dayNames : List String :=
  ["Monday", "Tuesday", "Wednesday", "Thursday", "Friday", "Saturday", "Sunday"]

/-- The months. -/
def monthNames : List String :=
  ["January", "February", "March", "April", "May", "June", "July", "August", "September",
    "October", "November", "December"]

/-- What stands in front of a text that is narrower than its field. Without a flag numbers have a
filling of their own and other texts have spaces; `nothing` keeps a number from being filled up by
itself, and the field around it gets spaces. -/
inductive Filling where
  | zeros
  | spaces
  | nothing
  deriving DecidableEq

/-- The filling that a flag asks for. -/
def Filling.ofFlag? (c : Char) : Option Filling :=
  if c = '0' then some zeros
  else if c = '_' then some spaces
  else if c = '-' then some nothing
  else none

/-- The character of a filling. -/
def Filling.char : Filling → Char
  | zeros => '0'
  | _ => ' '

/-- A text filled up to a width. -/
def filled (c : Char) (width : Nat) (text : List Char) : List Char :=
  List.replicate (width - text.length) c ++ text

/-- A number in two digits. -/
def two (n : Nat) : List Char := filled '0' 2 (Decimal.digits n)

/-- A number in two places. -/
def twoPlaces (n : Nat) : List Char := filled ' ' 2 (Decimal.digits n)

/-- The parts of an instant that fields show. -/
structure Parts where
  instant : Instant
  moment : Moment
  dayNumber : Nat

/-- The parts of an instant. -/
def Parts.ofInstant (t : Instant) : Parts :=
  let m := t.toMoment
  ⟨t, m, Calendar.dayNumber m.date⟩

namespace Parts

variable (p : Parts)

/-- The day of the week, Monday being 0. -/
def weekday : Nat := Calendar.weekday p.dayNumber

/-- The hour on a clock face, 1 to 12. -/
def faceHour : Nat := (p.moment.hour + 11) % 12 + 1

/-- The day of the year, 1 January being 0. -/
def yearDay : Nat := Calendar.dayOfYear p.moment.date

/-- The week of the year when weeks start on Sunday; days before the first Sunday are in week 0. -/
def sundayWeek : Nat := (p.yearDay + 7 - (p.weekday + 1) % 7) / 7

/-- The week of the year when weeks start on Monday; days before the first Monday are in week 0. -/
def mondayWeek : Nat := (p.yearDay + 7 - p.weekday) / 7

/-- The name of the day. -/
def dayName : List Char := (dayNames.getD p.weekday "").toList

/-- The name of the month. -/
def monthName : List Char := (monthNames.getD (p.moment.date.month - 1) "").toList

/-- Hour and minute of the day. -/
def hourMinute : List Char := two p.moment.hour ++ ':' :: two p.moment.minute

/-- The time of day to the second. -/
def clock : List Char := p.hourMinute ++ ':' :: two p.moment.second

/-- The half of the day. -/
def half : List Char := (if p.moment.hour < 12 then "AM" else "PM").toList

/-- Month, day and the last two digits of the year. -/
def shortDate : List Char :=
  two p.moment.date.month ++ '/' :: two p.moment.date.day ++ '/' ::
    two (p.moment.date.year % 100)

/-- Year, month and day. -/
def longDate : List Char :=
  Decimal.digits p.moment.date.year ++ '-' :: two p.moment.date.month ++ '-' ::
    two p.moment.date.day

/-- The number of a numeric field, with its usual filling and its least width. -/
def number? (c : Char) : Option (Filling × Nat × Nat) :=
  match c with
  | 'C' => some (.zeros, 1, p.moment.date.year / 100)
  | 'd' => some (.zeros, 2, p.moment.date.day)
  | 'e' => some (.spaces, 2, p.moment.date.day)
  | 'g' => some (.zeros, 2, (Calendar.weekOf p.dayNumber).1 % 100)
  | 'G' => some (.zeros, 1, (Calendar.weekOf p.dayNumber).1)
  | 'H' => some (.zeros, 2, p.moment.hour)
  | 'I' => some (.zeros, 2, p.faceHour)
  | 'j' => some (.zeros, 3, p.yearDay + 1)
  | 'k' => some (.spaces, 2, p.moment.hour)
  | 'l' => some (.spaces, 2, p.faceHour)
  | 'm' => some (.zeros, 2, p.moment.date.month)
  | 'M' => some (.zeros, 2, p.moment.minute)
  | 'S' => some (.zeros, 2, p.moment.second)
  | 'u' => some (.zeros, 1, p.weekday + 1)
  | 'U' => some (.zeros, 2, p.sundayWeek)
  | 'V' => some (.zeros, 2, (Calendar.weekOf p.dayNumber).2)
  | 'w' => some (.zeros, 1, (p.weekday + 1) % 7)
  | 'W' => some (.zeros, 2, p.mondayWeek)
  | 'y' => some (.zeros, 2, p.moment.date.year % 100)
  | 'Y' => some (.zeros, 1, p.moment.date.year)
  | _ => none

/-- The text of a field that is no single number. -/
def text? (c : Char) : Option (List Char) :=
  match c with
  | 'a' => some (p.dayName.take 3)
  | 'A' => some p.dayName
  | 'b' | 'h' => some (p.monthName.take 3)
  | 'B' => some p.monthName
  | 'c' =>
    some (p.dayName.take 3 ++ ' ' :: p.monthName.take 3 ++ ' ' ::
      twoPlaces p.moment.date.day ++ ' ' :: p.clock ++ ' ' ::
      Decimal.digits p.moment.date.year)
  | 'D' | 'x' => some p.shortDate
  | 'F' => some p.longDate
  | 'n' => some ['\n']
  | 'p' => some p.half
  | 'P' => some (p.half.map Char.toLower)
  | 'r' =>
    some (two p.faceHour ++ ':' :: two p.moment.minute ++ ':' ::
      two p.moment.second ++ ' ' :: p.half)
  | 'R' => some p.hourMinute
  | 's' => some (Decimal.ofInt (Int.fdiv p.instant.micros Instant.perSecond))
  | 't' => some ['\t']
  | 'T' | 'X' => some p.clock
  | 'Z' => some []
  | '%' => some ['%']
  | _ => none

end Parts

/-! ## Fields -/

/-- A field before its letter. -/
structure Field where
  /-- The last flag for the filling. -/
  filling : Option Filling := none
  /-- Whether the flag for capital letters was given. -/
  capital : Bool := false
  /-- Whether the flag for the other case was given. -/
  otherCase : Bool := false
  width : Nat := 0
  /-- The letter of an alternative form. -/
  form : Option Char := none

/-- A field with one more flag. -/
def Field.flag? (field : Field) (c : Char) : Option Field :=
  match Filling.ofFlag? c with
  | some filling => some { field with filling }
  | none =>
    if c = '^' then some { field with capital := true }
    else if c = '#' then some { field with otherCase := true }
    else none

/-- A field with the flags at the start of a text, and what follows them. -/
def Field.withFlags (field : Field) : List Char → Field × List Char
  | [] => (field, [])
  | c :: rest =>
    match field.flag? c with
    | some field => field.withFlags rest
    | none => (field, c :: rest)

/-- The field at the start of a text, behind the percent sign, and what follows from its letter
on. -/
def Field.read (cs : List Char) : Field × List Char :=
  let (field, rest) := Field.withFlags {} cs
  let width := rest.takeWhile Decimal.isDigit
  let field := { field with width := Decimal.ofDigits width }
  match rest.drop width.length with
  | [] => (field, [])
  | c :: rest =>
    if c = 'E' ∨ c = 'O' then ({ field with form := some c }, rest) else (field, c :: rest)

/-- The letters that have no alternative form of a kind. -/
def withoutForm (form : Char) : List Char :=
  (if form = 'E' then "abdeghjklmwABDFGHIMSUVW" else "acxADFXY").toList

/-- A text in the case that the flags of its field ask for: names change to capital letters by both
flags, and the half of the day to small ones by the second. -/
def Field.cased (field : Field) (letter : Char) (text : List Char) : List Char :=
  if letter = 'P' || (letter = 'p' && field.otherCase) then text.map Char.toLower
  else if field.capital || (field.otherCase && "aAbBh".toList.contains letter) then
    text.map Char.toUpper
  else text

/-- A text filled up to the width of its field; none if the width reaches the limit. -/
def Field.framed? (field : Field) (limit : Nat) (text : List Char) : Option (List Char) :=
  if limit ≤ field.width then none
  else some (filled (field.filling.getD .spaces).char field.width text)

/-- The number of a field filled up. -/
def Field.number? (field : Field) (limit : Nat) (usual : Filling) (least n : Nat) :
    Option (List Char) :=
  if limit ≤ field.width then none
  else
    let digits := Decimal.digits n
    match field.filling.getD usual with
    | .nothing => field.framed? limit digits
    | filling => some (filled filling.char (max least field.width) digits)

/-- The text of a field, given its letter, if it has one, and the text that stands for it if it is
none; no text is to reach the limit. -/
def Field.text? (p : Parts) (field : Field) (limit : Nat) (letter : Option Char)
    (plain : List Char) : Option (List Char) :=
  match letter with
  | none => field.framed? limit (field.cased ' ' plain)
  | some c =>
    -- the zone is known only without flags; its empty name is filled up, its offset is not
    if c = 'z' || (c = 'Z' && field.filling = some .nothing) then some []
    else if field.form.any fun form => (withoutForm form).contains c then
      field.framed? limit (field.cased (if c = 'b' || c = 'h' then c else ' ') plain)
    else
      match p.number? c with
      | some (usual, least, n) => field.number? limit usual least n
      | none => field.framed? limit (field.cased c ((p.text? c).getD plain))

/-- A format with its fields filled in, unless some text reaches the limit; `fuel` bounds the number
of steps. -/
def fillIn? (p : Parts) (limit : Nat) : Nat → List Char → Option (List Char)
  | 0, _ => some []
  | _ + 1, [] => some []
  | fuel + 1, '%' :: rest => do
    let (field, behind) := Field.read rest
    let plain := '%' :: rest.take (rest.length - behind.length) ++ behind.take 1
    let shown ← field.text? p limit behind.head? plain
    return shown ++ (← fillIn? p limit fuel (behind.drop 1))
  | fuel + 1, c :: rest => (fillIn? p limit fuel rest).map (c :: ·)

/-- A format with the three fields filled in that take no flags: the fraction of the second and the
offset and the name of the time zone. -/
def fillZone (p : Parts) : List Char → List Char
  | '%' :: c :: rest =>
    if c = 'f' then filled '0' 6 (Decimal.digits p.moment.micro) ++ fillZone p rest
    else if c = 'z' then "+0000".toList ++ fillZone p rest
    else if c = 'Z' then "UTC".toList ++ fillZone p rest
    else '%' :: c :: fillZone p rest
  | c :: rest => c :: fillZone p rest
  | [] => []

/-- The limit for a format: a power of two, from 1024 on, that is at least 256 times its length;
the first argument bounds the number of doublings. -/
def limitFrom (length : Nat) : Nat → Nat → Nat
  | 0, limit => limit
  | more + 1, limit => if 256 * length ≤ limit then limit else limitFrom length more (2 * limit)

/-- An instant in a format. A text that reaches the limit for its format is given up. -/
def write (format : List Char) (t : Instant) : List Char :=
  let p := Parts.ofInstant t
  let format := fillZone p format
  let limit := limitFrom format.length format.length 1024
  match fillIn? p limit (format.length + 1) format with
  | some text => if text.length < limit then text else []
  | none => []

end PageBlocks.Time.Format
