import PollKeeper.Poll.Basic
import PollKeeper.Text.Decimal
import PollKeeper.Time.Calendar

/-!
# The message of a poll

The text that shows a poll in its channel: when it runs by the clocks of its zone, what its settings allow,
and a table of results.
-/

namespace PollKeeper

open Time Text

variable [ZoneClocks]

/-- A number with spaces in front up to a least width. -/
def alignRight (width n : Nat) : String := .ofList (padLeft width ' ' (digits n))

/-- Date and minute on local clocks. -/
def localMinute (zone : Zone) (t : Instant) : String :=
  let c := CivilTime.ofSeconds (t.seconds + ZoneClocks.offsetAt zone t.seconds)
  .ofList (Date.yearText c.date.year ++ '-' :: Date.twoDigits c.date.month ++
    '-' :: Date.twoDigits c.date.day ++ ' ' :: Date.twoDigits c.hour ++
    ':' :: Date.twoDigits c.minute)

/-- The share of a part in a total in percent, half a percent rounded up; 0 of nothing. -/
def percent (part total : Nat) : Nat :=
  if part = 0 ∨ total = 0 then 0 else (200 * part + total) / (2 * total)

namespace Poll

def resultRow (total place : Nat) (name : String) (count : Nat) : String :=
  alignRight 2 place ++ ". " ++ name ++ " → " ++ alignRight 3 count ++ " / " ++
    alignRight 3 (percent count total) ++ "%"

def resultRows (p : Poll) : List String :=
  p.choices.zipIdx.map fun (c, i) => resultRow p.answerCount (i + 1) c.name c.voters.size

/-- The text of the message; none if the poll has no end in range. -/
def message? (p : Poll) : Option String :=
  p.endsAt?.map fun finish =>
    "**" ++ p.title ++ "**\n\n" ++ p.description ++ "\n\n" ++
    "• From " ++ localMinute p.settings.zone p.start ++ " until " ++
      localMinute p.settings.zone finish ++ "\n" ++
    "• " ++ alignRight 2 p.settings.answersPerUser ++
      (if p.settings.answersPerUser > 1 then " Answers" else " Answer") ++ " per User\n" ++
    "• You can " ++ (if p.settings.canChange then "" else "*not* ") ++ "change your answer\n" ++
    "• " ++ alignRight 4 p.voterCount ++ " Users\n\n" ++
    "```\n" ++ "\n".intercalate p.resultRows ++ "\n```"

end Poll

end PollKeeper
