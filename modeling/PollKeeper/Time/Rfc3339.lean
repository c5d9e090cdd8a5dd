import PollKeeper.Text.Blank
import PollKeeper.Text.Decimal
import PollKeeper.Time.Calendar
import PollKeeper.Time.Instant

/-!
# Instants as text

The form of RFC 3339: date, time of day and distance from UTC. `write` has one form for each
instant. `read?` is more generous: numbers may be short or have white space in front, the date and
the time may stand apart by a space, and any distance from UTC below a day is accepted.
-/

namespace PollKeeper.Time.Rfc3339

open PollKeeper.Text

/-- The fraction of a second, in the fewest of 3, 6 or 9 digits that are exact. -/
def fraction (nanos : Nat) : List Char :=
  if nanos = 0 then []
  else if nanos % 1000000 = 0 then '.' :: padLeft 3 '0' (digits (nanos / 1000000))
  else if nanos % 1000 = 0 then '.' :: padLeft 6 '0' (digits (nanos / 1000))
  else '.' :: padLeft 9 '0' (digits nanos)

/-- The text of an instant in UTC; a leap second shows as second 60. -/
def write (t : Instant) : List Char :=
  let c := CivilTime.ofSeconds t.seconds
  Date.yearText c.date.year ++ '-' :: Date.twoDigits c.date.month ++
    '-' :: Date.twoDigits c.date.day ++ 'T' :: Date.twoDigits c.hour ++
    ':' :: Date.twoDigits c.minute ++
    ':' :: Date.twoDigits (c.second + t.nanos / 1000000000) ++
    fraction (t.nanos % 1000000000) ++ ['Z']

def number? (limit : Nat) (cs : List Char) : Option (Nat × List Char) :=
  let (run, rest) := takeDigits limit (skipBlank cs)
  if run.isEmpty then none else some (numberOf run, rest)

def longNumber? (cs : List Char) : Option (Nat × List Char) :=
  let (run, rest) := cs.span isDigit
  if run.isEmpty then none else some (numberOf run, rest)

/-- A year: up to four digits, or any number of them after a sign. -/
def year? (cs : List Char) : Option (Int × List Char) :=
  match skipBlank cs with
  | '-' :: rest => (longNumber? rest).map fun (n, rest) => (-n, rest)
  | '+' :: rest => (longNumber? rest).map fun (n, rest) => ((n : Int), rest)
  | cs => (number? 4 cs).map fun (n, rest) => ((n : Int), rest)

def separator? (mark : Char) (cs : List Char) : Option (List Char) :=
  match skipBlank cs with
  | c :: rest => if c = mark then some rest else none
  | [] => none

def date? (cs : List Char) : Option (Date × List Char) := do
  let (year, cs) ← year? cs
  let cs ← separator? '-' cs
  let (month, cs) ← number? 2 cs
  let cs ← separator? '-' cs
  let (day, cs) ← number? 2 cs
  some (⟨year, month, day⟩, cs)

/-- The nanoseconds that a fraction stands for; digits past the ninth are passed over, and without
a point there is no fraction. -/
def nanos? (cs : List Char) : Option (Nat × List Char) :=
  match cs with
  | '.' :: cs =>
    let (run, rest) := takeDigits 9 cs
    if run.isEmpty then none
    else some (numberOf run * Nat.pow 10 (9 - run.length), rest.dropWhile isDigit)
  | cs => some (0, cs)

structure Clock where
  hour : Nat
  minute : Nat
  second : Nat
  nanos : Nat

def clock? (cs : List Char) : Option (Clock × List Char) := do
  let (hour, cs) ← number? 2 cs
  let cs ← separator? ':' cs
  let (minute, cs) ← number? 2 cs
  let cs ← separator? ':' cs
  let (second, cs) ← number? 2 cs
  let (nanos, cs) ← nanos? cs
  if hour ≤ 23 ∧ minute ≤ 59 ∧ second ≤ 60 then some (⟨hour, minute, second, nanos⟩, cs)
  else none

/-- Hours and minutes of a distance from UTC, in seconds: two digits each, with colons and white
space between them. -/
def distance? (cs : List Char) : Option (Nat × List Char) :=
  match cs with
  | a :: b :: cs =>
    match digitValue? a, digitValue? b, cs.dropWhile (fun c => c = ':' || isBlankChar c) with
    | some a, some b, c :: d :: rest =>
      match digitValue? c, digitValue? d with
      | some c, some d =>
        if c ≤ 5 then some ((10 * a + b) * 3600 + (10 * c + d) * 60, rest) else none
      | _, _ => none
    | _, _, _ => none
  | _ => none

/-- The distance from UTC in seconds, east positive: `Z`, `UTC` or a sign with hours and
minutes. -/
def offset? (cs : List Char) : Option (Int × List Char) :=
  match cs with
  | u :: t :: c :: rest =>
    if [u.toLower, t.toLower, c.toLower] = ['u', 't', 'c'] then some (0, rest) else signed cs
  | cs => signed cs
where
  signed : List Char → Option (Int × List Char)
    | 'Z' :: rest => some (0, rest)
    | 'z' :: rest => some (0, rest)
    | '+' :: rest => (distance? rest).map fun (n, rest) => ((n : Int), rest)
    | '-' :: rest => (distance? rest).map fun (n, rest) => (-n, rest)
    | '−' :: rest => (distance? rest).map fun (n, rest) => (-n, rest)
    | _ => none

/-- The instant of a date and a time of day at a distance from UTC. Second 60 is the leap second
after second 59. -/
def assemble? (date : Date) (clock : Clock) (offset : Int) : Option Instant :=
  let leap := clock.second = 60
  let civil : CivilTime := ⟨date, clock.hour, clock.minute, if leap then 59 else clock.second⟩
  let seconds := civil.seconds - offset
  let nanos := if leap then clock.nanos + 1000000000 else clock.nanos
  if h : (nanos < 1000000000 ∨ nanos < 2000000000 ∧ seconds % 60 = 59) ∧
      minSeconds ≤ seconds ∧ seconds ≤ maxSeconds then
    some ⟨seconds, nanos, h.1, h.2.1, h.2.2⟩
  else none

/-- Reads a whole text; white space may follow. The date must be one of the calendar, in a year
from -262143 to 262142. -/
def read? (cs : List Char) : Option Instant := do
  let (date, cs) ← date? cs
  let cs ← match cs with
    | 'T' :: rest => some rest
    | 't' :: rest => some rest
    | ' ' :: rest => some rest
    | _ => none
  let (clock, cs) ← clock? cs
  let (offset, cs) ← offset? (skipBlank cs)
  if date.isReal ∧ -262143 ≤ date.year ∧ date.year ≤ 262142 ∧ offset.natAbs < 86400
      ∧ cs.all isBlankChar then
    assemble? date clock offset
  else none

end PollKeeper.Time.Rfc3339
