/-!
# What can be wrong with a poll or its settings
-/

namespace PollKeeper

def maxOptions : Nat := 25

def maxPollSeconds : Nat := 2147483647

inductive PollError where
  | answersPerUser (given : Nat)
  | duration (seconds : Nat)
  | timezone (name : String)
  | missingChannel
  | blankTitle
  | blankDescription
  | optionCount (given : Nat)
  | blankOptionName
  | duplicateOptionId (id : Int)
  | subsecondStart
  deriving DecidableEq

def PollError.message : PollError → String
  | answersPerUser given => s!"answers per user must be between 1 and 25, got {given}"
  | duration seconds =>
    s!"duration must be between 1 second and 2147483647 seconds, got {seconds} seconds"
  | timezone name => s!"unknown timezone: {name}"
  | missingChannel => "channel id must not be 0"
  | blankTitle => "title must not be blank"
  | blankDescription => "description must not be blank"
  | optionCount given => s!"a poll needs between 1 and 25 options, got {given}"
  | blankOptionName => "option names must not be blank"
  | duplicateOptionId id => s!"option id {id} is used more than once"
  | subsecondStart => "poll start must have whole-second precision"

end PollKeeper
