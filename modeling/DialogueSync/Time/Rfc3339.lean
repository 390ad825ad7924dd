/-!
# Times as text

A time in milliseconds since the epoch as a date and time of day in UTC. Days are counted in the
Gregorian calendar, in eras of 400 years that begin in March, so that the leap day is the last of its
year.
-/

namespace DialogueSync.Time

/-- A day of the Gregorian calendar. -/
structure Date where
  year : Int
  month : Nat
  day : Nat
deriving DecidableEq, Repr

/-- The day that lies a number of days after the first of January 1970. -/
def Date.ofDays (days : Int) : Date :=
  let shifted := days + 719468
  let era := shifted.fdiv 146097
  let dayOfEra := (shifted.fmod 146097).toNat
  let yearOfEra := (dayOfEra - dayOfEra / 1460 + dayOfEra / 36524 - dayOfEra / 146096) / 365
  let dayOfYear := dayOfEra - (365 * yearOfEra + yearOfEra / 4 - yearOfEra / 100)
  let monthFromMarch := (5 * dayOfYear + 2) / 153
  let month := if monthFromMarch < 10 then monthFromMarch + 3 else monthFromMarch - 9
  { year := era * 400 + yearOfEra + (if month ≤ 2 then 1 else 0)
    month := month
    day := dayOfYear - (153 * monthFromMarch + 2) / 5 + 1 }

/-- The decimal digits of a number, with zeros in front up to a width. -/
def padded (width n : Nat) : String :=
  let digits := Nat.toDigits 10 n
  String.ofList (List.replicate (width - digits.length) '0' ++ digits)

/-- A year with four digits; one that needs more, or lies before the year 0, with a sign. -/
def yearText (year : Int) : String :=
  if year < 0 then "-" ++ padded 4 year.natAbs
  else if year < 10000 then padded 4 year.natAbs
  else "+" ++ padded 4 year.natAbs

/-- The time in the form of RFC 3339, in UTC, with three digits of a second unless they are zeros. -/
def rfc3339 (millis : Int64) : String :=
  let t := millis.toInt
  let date := Date.ofDays (t.fdiv 86400000)
  let ofDay := (t.fmod 86400000).toNat
  let second := ofDay / 1000
  let fraction := if ofDay % 1000 = 0 then "" else "." ++ padded 3 (ofDay % 1000)
  yearText date.year ++ "-" ++ padded 2 date.month ++ "-" ++ padded 2 date.day ++ "T" ++
    padded 2 (second / 3600) ++ ":" ++ padded 2 (second / 60 % 60) ++ ":" ++ padded 2 (second % 60) ++
    fraction ++ "Z"

end DialogueSync.Time
