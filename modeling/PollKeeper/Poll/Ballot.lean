import PollKeeper.Poll.Basic

/-!
# Ballots

The selection that a user hands in, and why it may be refused.
-/

namespace PollKeeper

open Time

inductive Rejection where
  | ended
  | answerLocked
  | nothingSelected
  | tooManyAnswers (limit : Nat)
  | unknownOption (id : ChoiceId)
  deriving DecidableEq

def Rejection.message : Rejection → String
  | ended => "This poll has already ended."
  | answerLocked => "You already voted and can't change your answer."
  | nothingSelected => "You didn't select any answer."
  | tooManyAnswers limit =>
    s!"You selected too many answers. This poll allows at most {limit}."
  | unknownOption id => s!"Option {id} doesn't exist in this poll."

namespace Poll

/-- What every stored selection satisfies: the options exist, and there are not too many. The
selection may be empty. -/
def checkSelection (p : Poll) (chosen : IdSet) : Except Rejection Unit :=
  match chosen.toList.find? fun id => (p.choice? id).isNone with
  | some id => .error (.unknownOption id)
  | none =>
    if chosen.size ≤ p.settings.answersPerUser then .ok ()
    else .error (.tooManyAnswers p.settings.answersPerUser)

/-- Whether a user may hand in a selection now; none if the poll has no end in range. -/
def checkBallot? (p : Poll) (voter : UserId) (chosen : IdSet) (now : Instant) :
    Option (Except Rejection Unit) :=
  (p.hasEnded? now).map fun ended =>
    if ended then .error .ended
    else if !p.settings.canChange && !(p.answersOf voter).isEmpty then .error .answerLocked
    else if chosen.size = 0 then .error .nothingSelected
    else p.checkSelection chosen

end Poll

end PollKeeper
