import PollKeeper.Storage.Error

/-!
# Rows

The rows in which polls and settings are stored, with plain numbers and texts in their columns, and
how they are put together again. Rows that were tampered with denote nothing.
-/

namespace PollKeeper

open Time

structure SettingsRow where
  guild : GuildId
  answersPerUser : Int
  durationSeconds : Int
  /-- Zero stands for no, anything else for yes. -/
  canChange : Int
  timezone : String
  deriving DecidableEq

/-- A poll without its options. The start is in seconds, edits are in milliseconds. -/
structure PollRow where
  key : PollKey
  channel : ChannelId
  title : String
  description : String
  startAt : Int
  answersPerUser : Int
  durationSeconds : Int
  canChange : Int
  timezone : String
  editedAt : Int
  editSeenAt : Option Int
  /-- Zero until the refresh after the end of the poll was asked for. -/
  finalRefreshed : Int
  deriving DecidableEq

structure ChoiceRow where
  poll : PollKey
  id : ChoiceId
  position : Int
  name : String
  deriving DecidableEq

structure AnswerRow where
  poll : PollKey
  choice : ChoiceId
  user : UserId
  deriving DecidableEq

def boolColumn (b : Bool) : Int := if b then 1 else 0

def Settings.ofColumns (answersPerUser durationSeconds canChange : Int) (timezone : String) :
    Except StorageError Settings :=
  if answersPerUser < 0 ∨ 255 < answersPerUser then
    .error (.corrupt (.answersPerUser answersPerUser))
  else if durationSeconds < 0 then .error (.corrupt (.duration durationSeconds))
  else
    (make answersPerUser.toNat (.ofSeconds durationSeconds.toNat) (canChange ≠ 0)
      timezone).mapError fun e => .corrupt (.settings e)

namespace SettingsRow

def ofSettings (guild : GuildId) (s : Settings) : SettingsRow :=
  ⟨guild, s.answersPerUser, s.seconds, boolColumn s.canChange, s.zone.name⟩

def toSettings (r : SettingsRow) : Except StorageError Settings :=
  Settings.ofColumns r.answersPerUser r.durationSeconds r.canChange r.timezone

end SettingsRow

namespace PollRow

/-- The row of a poll that was never acknowledged or refreshed. -/
def ofPoll (p : Poll) (editedAt : Int) : PollRow :=
  { key := p.key
    channel := p.channel
    title := p.title
    description := p.description
    startAt := p.start.seconds
    answersPerUser := p.settings.answersPerUser
    durationSeconds := p.settings.seconds
    canChange := boolColumn p.settings.canChange
    timezone := p.settings.zone.name
    editedAt
    editSeenAt := none
    finalRefreshed := 0 }

def endedBefore (r : PollRow) (cutoff : Int) : Bool := r.startAt + r.durationSeconds < cutoff

def hasUnseenEdit (r : PollRow) : Bool :=
  match r.editSeenAt with
  | none => true
  | some seen => seen < r.editedAt

/-- The row with new text and settings. A changed duration asks for another final refresh. -/
def withDetails (r : PollRow) (title description : String) (s : Settings) (editedAt : Int) :
    PollRow :=
  { r with
    title
    description
    answersPerUser := s.answersPerUser
    durationSeconds := s.seconds
    canChange := boolColumn s.canChange
    timezone := s.zone.name
    editedAt
    finalRefreshed := if r.durationSeconds = s.seconds then r.finalRefreshed else 0 }

/-- The row after an edit was acknowledged; an older acknowledgement changes nothing. -/
def withSeen (r : PollRow) (edit : Int) : PollRow :=
  match r.editSeenAt with
  | none => { r with editSeenAt := some edit }
  | some seen => if seen < edit then { r with editSeenAt := some edit } else r

/-- The poll of a row with its options in display order and all its answers. -/
def toPoll (r : PollRow) (choices : List ChoiceRow) (answers : List AnswerRow) :
    Except StorageError Poll := do
  let settings ← Settings.ofColumns r.answersPerUser r.durationSeconds r.canChange r.timezone
  match Instant.ofSeconds? r.startAt with
  | none => .error (.corrupt (.start r.startAt))
  | some start =>
    let p : Poll :=
      { id := r.key.poll
        guild := r.key.guild
        channel := r.channel
        title := r.title
        description := r.description
        start
        choices := choices.map fun c =>
          ⟨c.id, c.name, .ofList ((answers.filter (·.choice = c.id)).map (·.user))⟩
        settings }
    match p.validate with
    | .ok _ => .ok p
    | .error e => .error (.corrupt (.poll r.key e))

end PollRow

end PollKeeper
