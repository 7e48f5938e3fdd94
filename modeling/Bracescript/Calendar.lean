import Bracescript.Bytes

/-!
# Points in time

Nanoseconds since the start of 1970 as a date and time of day in UTC.
-/

namespace Bracescript.Calendar

/-- Year, month and day of a number of days since the start of 1970, in the Gregorian calendar. -/
def ofDays (days : Int) : Int × Nat × Nat :=
  -- Years are counted from March, so a leap day is the last day of its year, and eras of 400 years are alike.
  let z := days + 719468
  let era := z.fdiv 146097
  let dayOfEra := (z - era * 146097).toNat
  let yearOfEra := (dayOfEra - dayOfEra / 1460 + dayOfEra / 36524 - dayOfEra / 146096) / 365
  let dayOfYear := dayOfEra - (365 * yearOfEra + yearOfEra / 4 - yearOfEra / 100)
  let mp := (5 * dayOfYear + 2) / 153
  let day := dayOfYear - (153 * mp + 2) / 5 + 1
  let month := if mp < 10 then mp + 3 else mp - 9
  let year := (yearOfEra : Int) + era * 400 + if month ≤ 2 then 1 else 0
  (year, month, day)

/-- A number with zeros in front. -/
def padZero (width n : Nat) : Bytes :=
  let digits := Bytes.ofNat n
  Bytes.repeated (width - digits.length) 0x30 ++ digits

/-- Date and time with microseconds, as in `2023-11-14T22:13:20.123456Z`. -/
def timestamp (nanoseconds : Int) : Bytes :=
  let micros := nanoseconds.fdiv 1000
  let seconds := micros.fdiv 1000000
  let days := seconds.fdiv 86400
  let (year, month, day) := ofDays days
  let second := (seconds - days * 86400).toNat
  padZero 4 year.toNat ++ "-" ++ padZero 2 month ++ "-" ++ padZero 2 day ++ "T" ++ padZero 2 (second / 3600) ++ ":"
    ++ padZero 2 (second / 60 % 60) ++ ":" ++ padZero 2 (second % 60) ++ "."
    ++ padZero 6 (micros - seconds * 1000000).toNat ++ "Z"

end Bracescript.Calendar
