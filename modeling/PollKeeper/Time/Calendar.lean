import PollKeeper.Text.Decimal

/-!
# The civil calendar

Dates of the Gregorian calendar, continued in both directions, numbered by days from 1 January 1970.
Years begin in March for the count, so that the day that leap years add is the last of its year.
-/

namespace PollKeeper.Time

/-- A calendar date. The year 0 is the one before the year 1. -/
structure Date where
  year : Int
  month : Nat
  day : Nat
  deriving DecidableEq

namespace Date

/-- Days from 1 March of the year 0 to 1 January 1970. -/
def epochDay : Int := 719468

/-- Days from 1 March to the first day of the month `m` months later. -/
def monthStart (m : Int) : Int := (153 * m + 2) / 5

/-- Days from 1 January 1970; a day past the end of its month runs on into the next. -/
def dayNumber (d : Date) : Int :=
  let y := if d.month ≤ 2 then d.year - 1 else d.year
  let m : Int := ((d.month : Int) + 9) % 12
  365 * y + y / 4 - y / 100 + y / 400 + monthStart m + d.day - 1 - epochDay

/-- The date with a day number: the 400 years that it lies in, the year in them, the day in that
year. -/
def ofDayNumber (n : Int) : Date :=
  let shifted := n + epochDay
  let era := shifted / 146097
  let dayOfEra := shifted % 146097
  let yearOfEra := (dayOfEra - dayOfEra / 1460 + dayOfEra / 36524 - dayOfEra / 146096) / 365
  let dayOfYear := dayOfEra - (365 * yearOfEra + yearOfEra / 4 - yearOfEra / 100)
  let m := (5 * dayOfYear + 2) / 153
  let day := dayOfYear - monthStart m + 1
  let month := if m < 10 then m + 3 else m - 9
  { year := 400 * era + yearOfEra + (if month ≤ 2 then 1 else 0)
    month := month.toNat
    day := day.toNat }

/-- Whether the calendar has the date: its day number leads back to it. -/
def isReal (d : Date) : Bool := ofDayNumber d.dayNumber = d

/-- A year in four digits or more; outside of 0 to 9999 it carries its sign. -/
def yearText (year : Int) : List Char :=
  let digits := Text.padLeft 4 '0' (Text.digits year.natAbs)
  if year < 0 then '-' :: digits else if year > 9999 then '+' :: digits else digits

def twoDigits (n : Nat) : List Char := Text.padLeft 2 '0' (Text.digits n)

end Date

structure CivilTime where
  date : Date
  hour : Nat
  minute : Nat
  second : Nat
  deriving DecidableEq

namespace CivilTime

def ofSeconds (s : Int) : CivilTime :=
  let rest := (s % 86400).toNat
  { date := Date.ofDayNumber (s / 86400)
    hour := rest / 3600
    minute := rest / 60 % 60
    second := rest % 60 }

def seconds (c : CivilTime) : Int :=
  c.date.dayNumber * 86400 + c.hour * 3600 + c.minute * 60 + c.second

end CivilTime

end PollKeeper.Time
