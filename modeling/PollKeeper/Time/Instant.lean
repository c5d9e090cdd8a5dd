/-!
# Instants and spans

A position on the UTC time line to the nanosecond, within the years that the calendar of this
library covers, and the arithmetic on it. Sums that leave the range are `none`, or the end of the
range where the caller asks for that (`Instant.plus`, `Instant.minus`).
-/

namespace PollKeeper.Time

/-- A length of time, in nanoseconds. -/
structure Span where
  nanos : Nat
  deriving DecidableEq

namespace Span

def ofSeconds (n : Nat) : Span := ⟨n * 1000000000⟩

def ofMillis (n : Nat) : Span := ⟨n * 1000000⟩

def wholeSeconds (d : Span) : Nat := d.nanos / 1000000000

def restNanos (d : Span) : Nat := d.nanos % 1000000000

/-- The greatest distance on the time line that has a number: 2^63 - 1 milliseconds. -/
def longest : Span := .ofMillis 9223372036854775807

/-- The span as a distance on the time line, unless it is too long to be one. -/
def distance? (d : Span) : Option Int := if d.nanos ≤ longest.nanos then some d.nanos else none

end Span

/-- The first second of the year -262143. -/
def minSeconds : Int := -8334601228800

/-- The last second of the year 262142. -/
def maxSeconds : Int := 8210266876799

/-- A moment in UTC: seconds since 1970 and the nanoseconds past that second. A leap second, which
only the end of a minute can have, has no number of its own: it is the second before it with
nanoseconds from a thousand million on. -/
structure Instant where
  seconds : Int
  nanos : Nat
  nanos_lt : nanos < 1000000000 ∨ nanos < 2000000000 ∧ seconds % 60 = 59
  min_le : minSeconds ≤ seconds
  le_max : seconds ≤ maxSeconds
  deriving DecidableEq

namespace Instant

def total (t : Instant) : Int := t.seconds * 1000000000 + t.nanos

def ofTotal? (n : Int) : Option Instant :=
  if h : minSeconds ≤ n / 1000000000 ∧ n / 1000000000 ≤ maxSeconds then
    some ⟨n / 1000000000, (n % 1000000000).toNat, .inl (by omega), h.1, h.2⟩
  else none

def ofSeconds? (s : Int) : Option Instant :=
  if h : minSeconds ≤ s ∧ s ≤ maxSeconds then some ⟨s, 0, by omega, h.1, h.2⟩ else none

def ofMillis? (ms : Int) : Option Instant := ofTotal? (ms * 1000000)

def earliest : Instant := ⟨minSeconds, 0, by decide, by decide, by decide⟩

def latest : Instant := ⟨maxSeconds, 999999999, by decide, by decide, by decide⟩

def Before (a b : Instant) : Prop :=
  a.seconds < b.seconds ∨ a.seconds = b.seconds ∧ a.nanos < b.nanos

instance : LT Instant := ⟨Before⟩

instance : LE Instant := ⟨fun a b => ¬ Before b a⟩

instance (a b : Instant) : Decidable (a < b) :=
  inferInstanceAs (Decidable (_ ∨ _))

instance (a b : Instant) : Decidable (a ≤ b) :=
  inferInstanceAs (Decidable (¬ b < a))

def later (a b : Instant) : Instant := if a < b then b else a

/-- The instant some nanoseconds away, in either direction. A leap second takes time, though it has no
number of its own: within it the nanoseconds go on, and from there to what follows it is a second less on
the time line. -/
def shift? (t : Instant) (nanos : Int) : Option Instant :=
  if h : 1000000000 ≤ t.nanos ∧ 1000000000 ≤ t.nanos + nanos then
    if hstay : t.nanos + nanos < 2000000000 then
      some { t with
        nanos := (t.nanos + nanos).toNat
        nanos_lt := by
          have := t.nanos_lt
          omega }
    else ofTotal? (t.total - 1000000000 + nanos)
  else ofTotal? (t.total + nanos)

theorem shift?_of_nanos_lt {t : Instant} (h : t.nanos < 1000000000) (nanos : Int) :
    t.shift? nanos = ofTotal? (t.total + nanos) := dif_neg (by omega)

/-- The instant a span later, but never past `latest`. -/
def plus (t : Instant) (d : Span) : Instant := (d.distance?.bind t.shift?).getD latest

/-- The instant a span earlier, but never before `earliest`. -/
def minus (t : Instant) (d : Span) : Instant := (d.distance?.bind (t.shift? <| -·)).getD earliest

/-- Milliseconds since the epoch; a started millisecond does not count. -/
def millis (t : Instant) : Int := t.total / 1000000

/-- The least whole second that is not before the instant. -/
def ceilSeconds (t : Instant) : Int := if t.nanos = 0 then t.seconds else t.seconds + 1

/-- The start of the second that the instant lies in, also if that is a leap second. -/
def floorSecond (t : Instant) : Instant :=
  { t with
    nanos := t.nanos / 1000000000 * 1000000000
    nanos_lt := by
      have := t.nanos_lt
      omega }

end Instant

end PollKeeper.Time
