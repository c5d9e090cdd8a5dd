import PollKeeper.Poll.IdSet
import PollKeeper.Poll.Settings
import PollKeeper.Text.Blank

/-!
# Polls

A poll of a guild: its text, when it started, its options with the users who chose them, and its
settings. `Poll.validate` names the first rule that a poll breaks.
-/

namespace PollKeeper

open Time

abbrev GuildId := Int
abbrev PollId := Int
abbrev ChannelId := Int
abbrev UserId := Int
abbrev ChoiceId := Int

/-- Which poll of which guild. -/
structure PollKey where
  guild : GuildId
  poll : PollId
  deriving DecidableEq

structure Choice where
  id : ChoiceId
  name : String
  voters : IdSet
  deriving DecidableEq

/-- A poll. Its id is that of the message which shows it. -/
structure Poll where
  id : PollId
  guild : GuildId
  channel : ChannelId
  title : String
  description : String
  start : Instant
  choices : List Choice
  settings : Settings
  deriving DecidableEq

/-- A change of a poll: what is given replaces what was. -/
structure Edit where
  title : Option String
  description : Option String
  settings : Option Settings
  deriving DecidableEq

/-- The first option, from the front, that has a blank name or the id of an option before it. -/
def Choice.firstFault (seen : List ChoiceId) : List Choice → Option PollError
  | [] => none
  | c :: rest =>
    if Text.isBlank c.name then some .blankOptionName
    else if c.id ∈ seen then some (.duplicateOptionId c.id)
    else firstFault (c.id :: seen) rest

namespace Poll

def key (p : Poll) : PollKey := ⟨p.guild, p.id⟩

/-- Whether a poll may be stored. How many answers a user gave is not looked at. -/
def validate (p : Poll) : Except PollError Unit :=
  if p.channel = 0 then .error .missingChannel
  else if Text.isBlank p.title then .error .blankTitle
  else if Text.isBlank p.description then .error .blankDescription
  else if p.choices.length = 0 ∨ maxOptions < p.choices.length then
    .error (.optionCount p.choices.length)
  else if p.start.nanos ≠ 0 then .error .subsecondStart
  else match Choice.firstFault [] p.choices with
    | some fault => .error fault
    | none => .ok ()

def numberedChoices (names : List String) : List Choice :=
  names.zipIdx.map fun (name, i) => ⟨i + 1, name, .empty⟩

/-- A poll without answers; its start is cut to the second. -/
def make (id : PollId) (guild : GuildId) (channel : ChannelId) (title description : String)
    (start : Instant) (names : List String) (settings : Settings) : Except PollError Poll :=
  let p : Poll :=
    ⟨id, guild, channel, title, description, start.floorSecond, numberedChoices names, settings⟩
  p.validate.map fun _ => p

def edited (p : Poll) (e : Edit) : Poll :=
  { p with
    title := e.title.getD p.title
    description := e.description.getD p.description
    settings := e.settings.getD p.settings }

def apply (p : Poll) (e : Edit) : Except PollError Poll :=
  (p.edited e).validate.map fun _ => p.edited e

/-- When the poll ends; none if that is past the last instant. -/
def endsAt? (p : Poll) : Option Instant := p.start.shift? p.settings.duration.nanos

/-- Whether the poll is over. Its end itself still belongs to it. -/
def hasEnded? (p : Poll) (now : Instant) : Option Bool := p.endsAt?.map (· < now)

def choice? (p : Poll) (id : ChoiceId) : Option Choice := p.choices.find? (·.id = id)

def answersOf (p : Poll) (user : UserId) : List ChoiceId :=
  (p.choices.filter (user ∈ ·.voters)).map (·.id)

def answers (p : Poll) : List UserId := p.choices.flatMap (·.voters.toList)

/-- The number of answers, over all options. -/
def answerCount (p : Poll) : Nat := p.answers.length

/-- The number of users who have chosen an option. -/
def voterCount (p : Poll) : Nat := (IdSet.ofList p.answers).size

end Poll

end PollKeeper
