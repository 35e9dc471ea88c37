import Filewise.Number.Shortest

/-!
# Instants

An instant is a number of milliseconds since the start of the year 1970. It is
written as date and time of day in the Gregorian calendar, as if it had always
been in use.

## Main definitions

* `Instant.civil`: year, month and day of a day number.
* `Instant.text`: date and time.
-/

namespace Filewise

/-- Milliseconds since the start of 1970. -/
structure Instant where
  milliseconds : Int
  deriving DecidableEq, Repr

namespace Instant

/-- Year, month and day of the day with the given number; day 0 starts 1970. The
calendar repeats every 400 years of 146097 days; within these, years are counted
from March, so that the day added in a leap year is the last one. -/
def civil (day : Int) : Int × Nat × Nat :=
  let shifted := day + 719468
  let era := shifted / 146097
  let dayOfEra := (shifted % 146097).toNat
  let yearOfEra := (dayOfEra - dayOfEra / 1460 + dayOfEra / 36524 - dayOfEra / 146096) / 365
  let dayOfYear := dayOfEra - (365 * yearOfEra + yearOfEra / 4 - yearOfEra / 100)
  let shiftedMonth := (5 * dayOfYear + 2) / 153
  let dayOfMonth := dayOfYear - (153 * shiftedMonth + 2) / 5 + 1
  let month := if shiftedMonth < 10 then shiftedMonth + 3 else shiftedMonth - 9
  let year := era * 400 + yearOfEra + if month ≤ 2 then 1 else 0
  (year, month, dayOfMonth)

/-- A number with zeros in front, up to a width. -/
def padded (width n : Nat) : String :=
  let digits := Decimal.digitText n
  String.ofList (List.replicate (width - digits.length) '0' ++ digits)

/-- A year. Years that do not have four digits get a sign. -/
def yearText (year : Int) : String :=
  if 0 ≤ year ∧ year ≤ 9999 then padded 4 year.toNat
  else (if year < 0 then "-" else "+") ++ padded 4 year.natAbs

/-- Date and time of an instant, with milliseconds unless they are zero. -/
def text (t : Instant) : String :=
  let day := t.milliseconds / 86400000
  let ofDay := (t.milliseconds % 86400000).toNat
  let (year, month, dayOfMonth) := civil day
  let fraction := ofDay % 1000
  let seconds := ofDay / 1000
  yearText year ++ "-" ++ padded 2 month ++ "-" ++ padded 2 dayOfMonth ++ "T" ++
    padded 2 (seconds / 3600) ++ ":" ++ padded 2 (seconds / 60 % 60) ++ ":" ++
    padded 2 (seconds % 60) ++ (if fraction = 0 then "" else "." ++ padded 3 fraction) ++ "Z"

end Instant

end Filewise
