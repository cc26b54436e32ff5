import GraphMarkup.Decimal.Positional

/-!
# Points in time

* `CivilDate`, `civilDate` : the date of the Gregorian calendar, extended both ways, a number of days after 1970-01-01;
* `Stamp` : a point in time with the offset from UTC in which it is shown;
* `Stamp.text` : the RFC 3339 form, with as few places of a second as lose nothing.
-/

namespace GraphMarkup.Time

/-- A year, month and day. -/
structure CivilDate where
  year : Int
  month : Nat
  day : Nat
  deriving DecidableEq, Repr

/-- The date `days` after 1970-01-01. Years are counted from the first of March, so that a leap day ends its year, and
in eras of 400 years, which all have 146097 days. -/
def civilDate (days : Int) : CivilDate :=
  let shifted := days + 719468
  let era := shifted.fdiv 146097
  let dayOfEra := (shifted.fmod 146097).toNat
  let yearOfEra := (dayOfEra - dayOfEra / 1460 + dayOfEra / 36524 - dayOfEra / 146096) / 365
  let dayOfYear := dayOfEra - (365 * yearOfEra + yearOfEra / 4 - yearOfEra / 100)
  let marchMonth := (5 * dayOfYear + 2) / 153
  let month := if marchMonth < 10 then marchMonth + 3 else marchMonth - 9
  { year := era * 400 + yearOfEra + (if month ≤ 2 then 1 else 0)
    month
    day := dayOfYear - (153 * marchMonth + 2) / 5 + 1 }

def nanosPerSecond : Nat := 1000000000

/-- A point in time: seconds after 1970-01-01T00:00:00Z, nanoseconds after that, and the seconds east of UTC in which
it is shown. A full second or more of nanoseconds stands for a leap second. -/
structure Stamp where
  seconds : Int
  nanos : Nat
  offset : Int
  deriving DecidableEq, Repr

namespace Stamp

/-- A year of four digits is written plainly and any other with its sign. -/
def yearText (year : Int) : String :=
  if 0 ≤ year ∧ year ≤ 9999 then padded 4 year.toNat
  else (if year < 0 then "-" else "+") ++ padded 4 year.natAbs

/-- The places of a second: none, three, six or nine. -/
def fractionText (nanos : Nat) : String :=
  if nanos = 0 then ""
  else if nanos % 1000000 = 0 then "." ++ padded 3 (nanos / 1000000)
  else if nanos % 1000 = 0 then "." ++ padded 6 (nanos / 1000)
  else "." ++ padded 9 nanos

/-- The offset rounded to the nearest minute, a half going away from zero; only an offset of exactly zero is `Z`. -/
def offsetText (offset : Int) : String :=
  if offset = 0 then "Z"
  else
    let minutes := (offset.natAbs + 30) / 60
    (if offset < 0 then "-" else "+") ++ padded 2 (minutes / 60) ++ ":" ++ padded 2 (minutes % 60)

/-- The RFC 3339 form. A leap second is shown as one second more. -/
def text (s : Stamp) : String :=
  let shown := s.seconds + s.offset
  let date := civilDate (shown.fdiv 86400)
  let clock := (shown.fmod 86400).toNat
  let leap := decide (nanosPerSecond ≤ s.nanos)
  let second := clock % 60 + (if leap then 1 else 0)
  let nanos := if leap then s.nanos - nanosPerSecond else s.nanos
  yearText date.year ++ "-" ++ padded 2 date.month ++ "-" ++ padded 2 date.day ++ "T" ++ padded 2 (clock / 3600)
    ++ ":" ++ padded 2 (clock / 60 % 60) ++ ":" ++ padded 2 second ++ fractionText nanos ++ offsetText s.offset

end Stamp

end GraphMarkup.Time
