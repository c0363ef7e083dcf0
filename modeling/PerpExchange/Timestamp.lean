import PerpExchange.Number.DecimalText

/-!
Points in time, in milliseconds since the start of 1970, and their text.

The text is that of RFC 3339 in UTC on the proleptic Gregorian calendar, for years from -262143 to
262142. A year outside four digits is written with its sign.
-/

namespace PerpExchange

/-- Milliseconds since the start of 1970 in UTC. -/
structure Timestamp where
  millis : Int64
deriving DecidableEq, Repr

/-- A day of the proleptic Gregorian calendar. -/
structure CalendarDay where
  year : Int
  month : Nat
  day : Nat
deriving DecidableEq, Repr

/-- The calendar day that is `days` days after the first of January 1970. Years are counted from
March, in cycles of 400 years of 146097 days, so that the leap day is the last of its year. -/
def CalendarDay.ofDays (days : Int) : CalendarDay :=
  let shifted := days + 719468
  let cycle := shifted.fdiv 146097
  let dayOfCycle := (shifted - cycle * 146097).toNat
  let yearOfCycle :=
    (dayOfCycle - dayOfCycle / 1460 + dayOfCycle / 36524 - dayOfCycle / 146096) / 365
  let dayOfYear := dayOfCycle - (365 * yearOfCycle + yearOfCycle / 4 - yearOfCycle / 100)
  let monthFromMarch := (5 * dayOfYear + 2) / 153
  let month := if monthFromMarch < 10 then monthFromMarch + 3 else monthFromMarch - 9
  { year := yearOfCycle + cycle * 400 + (if month ≤ 2 then 1 else 0)
    month
    day := dayOfYear - (153 * monthFromMarch + 2) / 5 + 1 }

/-- A year of four digits, or a signed one of at least four. -/
def CalendarDay.yearText (d : CalendarDay) : String :=
  let digits := DecimalText.padded d.year.natAbs 4
  if 0 ≤ d.year ∧ d.year ≤ 9999 then digits
  else (if d.year < 0 then "-" else "+") ++ digits

namespace Timestamp

def inRange (t : Timestamp) : Bool :=
  -8334601228800000 ≤ t.millis.toInt && t.millis.toInt ≤ 8210266876799999

private def two (n : Nat) : String := DecimalText.padded n 2

def calendarText (millis : Int) : String :=
  let date := CalendarDay.ofDays (millis.fdiv 86400000)
  let rest := (millis.fmod 86400000).toNat
  let fraction := rest % 1000
  date.yearText ++ "-" ++ two date.month ++ "-" ++ two date.day ++
    "T" ++ two (rest / 3600000) ++ ":" ++ two (rest / 60000 % 60) ++ ":" ++ two (rest / 1000 % 60) ++
    (if fraction = 0 then "" else "." ++ DecimalText.padded fraction 3) ++ "+00:00"

/-- The calendar text, or the plain milliseconds of a time beyond the calendar. -/
def text (t : Timestamp) : String :=
  if t.inRange then calendarText t.millis.toInt else toString t.millis.toInt ++ "ms"

end Timestamp

end PerpExchange
