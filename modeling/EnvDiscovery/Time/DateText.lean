import EnvDiscovery.Text.Ascii
import EnvDiscovery.Text.Blank
import EnvDiscovery.Text.Digit
import EnvDiscovery.Time

/-!
**Dates in text.**

A date with a time and an offset is read in the form `2020-01-31T12:30:00.5+02:00`. Blanks may stand
before each number, the letter between date and time may be a space, and the offset may be `Z` or
`UTC`. Dates are those of the Gregorian calendar, extended to all years.

Main definitions:
* `DateText.daysFromCivil`, `DateText.civilFromDays` — days since 1970 and dates;
* `DateText.parse` — the point in time that a text names;
* `DateText.render` — the text of a point in time.
-/

namespace EnvDiscovery.DateText

/-! ### The calendar -/

/-- Whether a year has a leap day. -/
def isLeapYear (y : Int) : Bool :=
  y % 4 == 0 && (y % 100 != 0 || y % 400 == 0)

/-- The number of days of a month. -/
def daysInMonth (y : Int) (m : Nat) : Nat :=
  if m = 2 then (if isLeapYear y then 29 else 28)
  else if m = 4 ∨ m = 6 ∨ m = 9 ∨ m = 11 then 30
  else 31

/-- The days from the start of 1970 to a date. Years are counted from March, so that the leap day
comes last. -/
def daysFromCivil (y : Int) (m d : Nat) : Int :=
  let y := if m ≤ 2 then y - 1 else y
  let era := y / 400
  let yearOfEra := y % 400
  let monthFromMarch : Int := if 2 < m then (m : Int) - 3 else (m : Int) + 9
  let dayOfYear := (153 * monthFromMarch + 2) / 5 + (d : Int) - 1
  let dayOfEra := yearOfEra * 365 + yearOfEra / 4 - yearOfEra / 100 + dayOfYear
  era * 146097 + dayOfEra - 719468

/-- The date that lies the given number of days after the start of 1970. -/
def civilFromDays (days : Int) : Int × Nat × Nat :=
  let z := days + 719468
  let era := z / 146097
  let dayOfEra := z % 146097
  let yearOfEra := (dayOfEra - dayOfEra / 1460 + dayOfEra / 36524 - dayOfEra / 146096) / 365
  let dayOfYear := dayOfEra - (365 * yearOfEra + yearOfEra / 4 - yearOfEra / 100)
  let monthFromMarch := (5 * dayOfYear + 2) / 153
  let d := dayOfYear - (153 * monthFromMarch + 2) / 5 + 1
  let m := if monthFromMarch < 10 then monthFromMarch + 3 else monthFromMarch - 9
  (yearOfEra + era * 400 + (if m ≤ 2 then 1 else 0), m.toNat, d.toNat)

/-! ### Reading -/

/-- A number of one up to `width` digits. -/
def number (width : Nat) (cs : List Char) : Option (Nat × List Char) :=
  match (cs.take width).takeWhile Char.isDigit with
  | [] => none
  | ds => some (Text.valueOfDigits ds, cs.drop ds.length)

/-- A number after blanks, at most `width` digits long and between two bounds. -/
def field (width lo hi : Nat) (cs : List Char) : Option (Nat × List Char) := do
  let (n, rest) ← number width (Text.dropBlanks cs)
  if lo ≤ n ∧ n ≤ hi then some (n, rest) else none

/-- A year after blanks: four digits at most, or any number of them after a sign. -/
def year (cs : List Char) : Option (Int × List Char) := do
  let (y, rest) ← match Text.dropBlanks cs with
    | '-' :: rest => (number rest.length rest).map fun (n, r) => (-(n : Int), r)
    | '+' :: rest => (number rest.length rest).map fun (n, r) => ((n : Int), r)
    | rest => (number 4 rest).map fun (n, r) => ((n : Int), r)
  if -262143 ≤ y ∧ y ≤ 262142 then some (y, rest) else none

/-- A mark after blanks. -/
def mark (c : Char) (cs : List Char) : Option (List Char) :=
  match Text.dropBlanks cs with
  | x :: rest => if x == c then some rest else none
  | [] => none

/-- The part of a second after a point, in nanoseconds; further digits are passed over. -/
def fraction : List Char → Option (Nat × List Char)
  | '.' :: cs => do
    let (n, rest) ← number 9 cs
    let digits := cs.length - rest.length
    some (n * Nat.pow 10 (9 - digits), rest.dropWhile Char.isDigit)
  | cs => some (0, cs)

/-- Two digits. -/
def twoDigits : List Char → Option (Nat × List Char)
  | a :: b :: rest =>
    if a.isDigit && b.isDigit then some (Text.valueOfDigits [a, b], rest) else none
  | _ => none

/-- The offset from universal time in seconds. -/
def offset (cs : List Char) : Option (Int × List Char) :=
  match cs with
  | 'Z' :: rest | 'z' :: rest => some (0, rest)
  | c :: rest =>
    if (cs.take 3).map Char.toLower == "utc".toList then some (0, cs.drop 3)
    else if c == '+' then hoursMinutes 1 rest
    else if c == '-' || c.toNat == 0x2212 then hoursMinutes (-1) rest
    else none
  | [] => none
where
  /-- Hours and minutes, with colons or blanks between them. -/
  hoursMinutes (sign : Int) (cs : List Char) : Option (Int × List Char) := do
    let (hours, rest) ← twoDigits cs
    let (minutes, rest) ← twoDigits (rest.dropWhile fun c => c == ':' || Text.isBlank c)
    if minutes < 60 then some (sign * (hours * 3600 + minutes * 60 : Nat), rest) else none

/-- The letter or space between a date and a time. -/
def separator : List Char → Option (List Char)
  | 't' :: rest | 'T' :: rest | ' ' :: rest => some rest
  | _ => none

/-- The point in time that a text names. -/
def parse (s : String) : Option Timestamp := do
  let (y, rest) ← year s.toList
  let (m, rest) ← field 2 1 12 (← mark '-' rest)
  let (d, rest) ← field 2 1 31 (← mark '-' rest)
  let rest ← separator rest
  let (hour, rest) ← field 2 0 23 rest
  let (minute, rest) ← field 2 0 59 (← mark ':' rest)
  let (second, rest) ← field 2 0 60 (← mark ':' rest)
  let (nanos, rest) ← fraction rest
  let (shift, rest) ← offset (Text.dropBlanks rest)
  if (Text.dropBlanks rest).isEmpty && d ≤ daysInMonth y m && shift.natAbs < 86400 then
    some ⟨daysFromCivil y m d * 86400 + (hour * 3600 + minute * 60 + second : Nat) - shift, nanos⟩
  else none

/-! ### Writing -/

/-- The part of a second, in as few groups of three digits as it needs. -/
def renderNanos (nanos : Nat) : String :=
  if nanos = 0 then ""
  else if nanos % 1000000 = 0 then "." ++ Text.decimalPadded 3 (nanos / 1000000)
  else if nanos % 1000 = 0 then "." ++ Text.decimalPadded 6 (nanos / 1000)
  else "." ++ Text.decimalPadded 9 nanos

/-- The year, with a sign when it does not have four digits. -/
def renderYear (y : Int) : String :=
  if 0 ≤ y ∧ y ≤ 9999 then Text.decimalPadded 4 y.toNat
  else (if y < 0 then "-" else "+") ++ Text.decimalPadded 4 y.natAbs

/-- The text of a point in time. -/
def render (t : Timestamp) : String :=
  let (y, m, d) := civilFromDays (t.secs / 86400)
  let s := (t.secs % 86400).toNat
  let two := Text.decimalPadded 2
  renderYear y ++ "-" ++ two m ++ "-" ++ two d ++ "T" ++ two (s / 3600) ++ ":" ++
    two (s / 60 % 60) ++
    ":" ++ two (s % 60) ++ renderNanos t.nanos ++ "Z"

end EnvDiscovery.DateText
