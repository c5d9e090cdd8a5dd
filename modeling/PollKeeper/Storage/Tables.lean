import PollKeeper.Storage.Row

/-!
# Tables

All durable data: default settings, polls, options, answers, and refreshes that were pending at a
shutdown. Polls stand in the order in which they were inserted. A change either gives the new
tables or an error, and then nothing has changed.
-/

namespace PollKeeper

open Time

structure EditStamp where
  key : PollKey
  editedAt : Int
  deriving DecidableEq

structure Tables where
  settings : List SettingsRow
  polls : List PollRow
  choices : List ChoiceRow
  answers : List AnswerRow
  pending : List PollKey

def PollKey.le (a b : PollKey) : Bool :=
  a.guild < b.guild || a.guild = b.guild && a.poll ≤ b.poll

def ChoiceRow.le (a b : ChoiceRow) : Bool :=
  a.position < b.position || a.position = b.position && a.id ≤ b.id

namespace Tables

def empty : Tables := ⟨[], [], [], [], []⟩

def settingsRow? (t : Tables) (guild : GuildId) : Option SettingsRow :=
  t.settings.find? (·.guild = guild)

/-- The default settings of a guild, or the standard ones if it has none. -/
def settingsOf (t : Tables) (guild : GuildId) : Except StorageError Settings :=
  match t.settingsRow? guild with
  | some row => row.toSettings
  | none => .ok .standard

def row? (t : Tables) (key : PollKey) : Option PollRow := t.polls.find? (·.key = key)

def choicesOf (t : Tables) (key : PollKey) : List ChoiceRow :=
  (t.choices.filter (·.poll = key)).mergeSort ChoiceRow.le

def answersOf (t : Tables) (key : PollKey) : List AnswerRow := t.answers.filter (·.poll = key)

def poll? (t : Tables) (key : PollKey) : Except StorageError (Option Poll) :=
  match t.row? key with
  | none => .ok none
  | some r => (r.toPoll (t.choicesOf key) (t.answersOf key)).map some

/-- The poll under a key, which must be stored. -/
def fetch (t : Tables) (key : PollKey) : Except StorageError Poll := do
  match ← t.poll? key with
  | some p => .ok p
  | none => .error .notFound

def pollIds (t : Tables) (guild : GuildId) : List PollId :=
  (((t.polls.map (·.key)).filter (·.guild = guild)).map (·.poll)).mergeSort (· ≤ ·)

def keysWhere (t : Tables) (p : PollRow → Bool) : List PollKey :=
  ((t.polls.filter p).map (·.key)).mergeSort PollKey.le

def endedBefore (t : Tables) (cutoff : Int) : List PollKey := t.keysWhere (·.endedBefore cutoff)

/-- The polls that ended before a second and still await their final refresh. -/
def awaitingFinal (t : Tables) (cutoff : Int) : List PollKey :=
  t.keysWhere fun r => r.finalRefreshed = 0 && r.endedBefore cutoff

def stamp? (t : Tables) (key : PollKey) : Option EditStamp :=
  (t.row? key).map fun r => ⟨key, r.editedAt⟩

/-- Unseen edits from a millisecond on, the oldest first; of equal ones, that of the poll inserted
first. -/
def unseenSince (t : Tables) (cutoff : Int) : List EditStamp :=
  ((t.polls.filter fun r => cutoff ≤ r.editedAt && r.hasUnseenEdit).map fun r =>
    (⟨r.key, r.editedAt⟩ : EditStamp)).mergeSort fun a b => a.editedAt ≤ b.editedAt

def pendingOf (t : Tables) (guild : GuildId) : List PollKey :=
  (t.pending.filter (·.guild = guild)).mergeSort PollKey.le

/-- Puts a row in the place of the guild's old one, or last. -/
def putSettings (t : Tables) (row : SettingsRow) : Tables :=
  { t with settings :=
      if t.settings.any (·.guild = row.guild) then
        t.settings.map fun r => if r.guild = row.guild then row else r
      else t.settings ++ [row] }

def modifyRow (t : Tables) (key : PollKey) (f : PollRow → PollRow) : Tables :=
  { t with polls := t.polls.map fun r => if r.key = key then f r else r }

def modifyRow? (t : Tables) (key : PollKey) (f : PollRow → PollRow) :
    Except StorageError Tables :=
  if (t.row? key).isSome then .ok (t.modifyRow key f) else .error .notFound

def modifyRowIf (t : Tables) (key : PollKey) (p : PollRow → Bool) (f : PollRow → PollRow) :
    Nat × Tables :=
  match t.row? key with
  | some r => if p r then (1, t.modifyRow key f) else (0, t)
  | none => (0, t)

def hasChoice (t : Tables) (key : PollKey) (id : ChoiceId) : Bool :=
  t.choices.any fun c => c.poll = key && c.id = id

def insertChoice (t : Tables) (key : PollKey) (position : Nat) (c : Choice) :
    Except StorageError Tables :=
  if t.hasChoice key c.id then .error (.engine .repeatedOption)
  else
    .ok { t with
      choices := t.choices ++ [⟨key, c.id, position, c.name⟩]
      answers := t.answers ++ c.voters.toList.map (⟨key, c.id, ·⟩) }

def insertPoll (t : Tables) (p : Poll) (editedAt : Int) : Except StorageError Tables :=
  if (t.row? p.key).isSome then .error .alreadyExists
  else
    p.choices.zipIdx.foldlM (fun t (c, i) => t.insertChoice p.key i c)
      { t with polls := t.polls ++ [.ofPoll p editedAt] }

def updatePoll (t : Tables) (key : PollKey) (title description : String) (s : Settings)
    (editedAt : Int) : Except StorageError Tables :=
  t.modifyRow? key (·.withDetails title description s editedAt)

def withdraw (t : Tables) (key : PollKey) (user : UserId) : Tables :=
  { t with answers := t.answers.filter fun a => ¬ (a.poll = key ∧ a.user = user) }

/-- Adds an answer for an option that must be stored; a second time changes nothing. -/
def insertAnswer (t : Tables) (a : AnswerRow) : Except StorageError Tables :=
  if a ∈ t.answers then .ok t
  else if t.hasChoice a.poll a.choice then .ok { t with answers := t.answers ++ [a] }
  else .error (.engine .missingOption)

/-- Makes a selection the whole answer of a user on a poll. -/
def replaceAnswers (t : Tables) (key : PollKey) (user : UserId) (chosen : List ChoiceId)
    (editedAt : Int) : Except StorageError Tables := do
  let t ← t.modifyRow? key ({ · with editedAt })
  chosen.foldlM (fun t id => t.insertAnswer ⟨key, id, user⟩) (t.withdraw key user)

/-- Removes a poll with its options, its answers and its pending refresh. -/
def removePoll (t : Tables) (key : PollKey) : Tables :=
  { t with
    polls := t.polls.filter (·.key ≠ key)
    choices := t.choices.filter (·.poll ≠ key)
    answers := t.answers.filter (·.poll ≠ key)
    pending := t.pending.filter (· ≠ key) }

/-- Removes a poll if it ended before a second, and tells whether it did. -/
def removeEnded (t : Tables) (key : PollKey) (cutoff : Int) : Bool × Tables :=
  match t.row? key with
  | some r => if r.endedBefore cutoff then (true, t.removePoll key) else (false, t)
  | none => (false, t)

def countChanges {α : Type} (change : Tables → α → Nat × Tables) (t : Tables) (items : List α) :
    Nat × Tables :=
  items.foldl (fun (n, t) item => let (m, t) := change t item; (n + m, t)) (0, t)

def markFinal (t : Tables) (keys : List PollKey) : Nat × Tables :=
  countChanges (fun t key =>
    t.modifyRowIf key (·.finalRefreshed = 0) ({ · with finalRefreshed := 1 })) t keys

def markSeen (t : Tables) (edits : List EditStamp) : Nat × Tables :=
  countChanges (fun t edit =>
    t.modifyRowIf edit.key (fun r => r.withSeen edit.editedAt ≠ r) (·.withSeen edit.editedAt))
    t edits

def savePending (t : Tables) (keys : List PollKey) : Nat × Tables :=
  countChanges (fun t key =>
    if key ∈ t.pending then (0, t) else (1, { t with pending := t.pending ++ [key] })) t keys

def takePending (t : Tables) (guild : GuildId) : List PollKey × Tables :=
  (t.pendingOf guild, { t with pending := t.pending.filter (·.guild ≠ guild) })

end Tables

end PollKeeper
