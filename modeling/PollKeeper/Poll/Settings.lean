import PollKeeper.Poll.Error
import PollKeeper.Time.Instant
import PollKeeper.Time.Zone

/-!
# Settings of a poll

How many answers a user may give, how long the poll runs, whether answers may be changed, and the
time zone in which its times are shown. Settings exist only within their limits; `Settings.make`
is the way to obtain them from outside values.
-/

namespace PollKeeper

open Time

structure Settings where
  answersPerUser : Nat
  seconds : Nat
  canChange : Bool
  zone : Zone
  answersPerUser_pos : 1 ≤ answersPerUser
  answersPerUser_le : answersPerUser ≤ maxOptions
  seconds_pos : 1 ≤ seconds
  seconds_le : seconds ≤ maxPollSeconds
  deriving DecidableEq

namespace Settings

/-- Settings from values that may be out of bounds, or the first of them that is. A started second
of the duration does not count. -/
def make (answersPerUser : Nat) (duration : Span) (canChange : Bool) (zoneName : String) :
    Except PollError Settings :=
  if ha : 1 ≤ answersPerUser ∧ answersPerUser ≤ maxOptions then
    if hd : 1 ≤ duration.wholeSeconds ∧ duration.wholeSeconds ≤ maxPollSeconds then
      match Zone.ofName? zoneName with
      | some zone =>
        .ok ⟨answersPerUser, duration.wholeSeconds, canChange, zone, ha.1, ha.2, hd.1, hd.2⟩
      | none => .error (.timezone zoneName)
    else .error (.duration duration.wholeSeconds)
  else .error (.answersPerUser answersPerUser)

def standard : Settings :=
  ⟨1, 86400, true, Zone.utc, by decide, by decide, by decide, by decide⟩

def duration (s : Settings) : Span := .ofSeconds s.seconds

/-- The settings with some values replaced; the time zone stays. -/
def withOverrides (s : Settings) (answersPerUser : Option Nat) (duration : Option Span)
    (canChange : Option Bool) : Except PollError Settings :=
  make (answersPerUser.getD s.answersPerUser) (duration.getD s.duration)
    (canChange.getD s.canChange) s.zone.name

end Settings

end PollKeeper
