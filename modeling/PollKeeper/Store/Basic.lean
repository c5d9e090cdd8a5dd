import PollKeeper.Storage.Database
import PollKeeper.Store.Caches
import PollKeeper.Store.Error

/-!
# The store

Polls and default settings of all guilds: the database, caches in front of it, and a lock for each
guild. Reads go through the caches; changes go to the tables first and then invalidate what they
touched, and a change that fails invalidates nothing.
-/

namespace PollKeeper

open Time

structure Store where
  database : Database
  caches : Caches
  locks : Locks

/-- A request at work: it may change the store, also when it fails. -/
abbrev StoreAction (α : Type) := ExceptT StoreError (StateM Store) α

namespace StoreAction

variable {α : Type}

def outcome (a : StoreAction α) (s : Store) : Except StoreError α × Store := (ExceptT.run a).run s

def look (f : Tables → Except StorageError α) : StoreAction α := do
  match (← get).database.read f with
  | .ok a => pure a
  | .error e => throw (.ofStorage e)

def change (f : Tables → Except StorageError (α × Tables)) : StoreAction α := do
  let (result, database) := (← get).database.write f
  modify ({ · with database })
  match result with
  | .ok a => pure a
  | .error e => throw (.ofStorage e)

def change_ (f : Tables → Except StorageError Tables) : StoreAction Unit :=
  change fun t => (f t).map fun t => ((), t)

def count (f : Tables → α × Tables) : StoreAction α := change fun t => .ok (f t)

def modifyCaches (f : Caches → Caches) : StoreAction Unit :=
  modify fun s => { s with caches := f s.caches }

def orInvalid (result : Except PollError α) : StoreAction α :=
  match result with
  | .ok a => pure a
  | .error e => throw (.invalid (.poll e))

def obtain (f : Locks → Except LockFailure Handle × Locks) : StoreAction Handle := do
  let (result, locks) := f (← get).locks
  modify ({ · with locks })
  match result with
  | .ok h => pure h
  | .error e => throw (.ofLock e)

/-- Runs an action and gives a handle back, however the action ends. -/
def thenRelease (a : StoreAction α) (h : Handle) : StoreAction α :=
  ExceptT.mk do
    let result ← a.run
    modify fun s => { s with locks := s.locks.release h }
    pure result

end StoreAction

structure PollEdit where
  key : PollKey
  editedAt : Instant
  deriving DecidableEq

def PollEdit.ofStamp (s : EditStamp) : Except StoreError PollEdit :=
  match Instant.ofMillis? s.editedAt with
  | some t => .ok ⟨s.key, t⟩
  | none => .error (.fatal (.editTime s.editedAt))

def PollEdit.toStamp (e : PollEdit) : EditStamp := ⟨e.key, e.editedAt.millis⟩

namespace Store

open StoreAction

def fresh : Store := ⟨.fresh, .empty, .empty⟩

/-- Locks a guild, unless it is busy. -/
def acquire (guild : GuildId) : StoreAction Handle := obtain (·.acquire guild)

def acquireUnless (cancelled : Bool) (guild : GuildId) : StoreAction Handle :=
  obtain (·.acquireUnless cancelled guild)

/-- The guild of a handle, which must still hold its lock. -/
def guildOf (h : Handle) : StoreAction GuildId := do
  if (← get).locks.isHeld h then pure h.guild else throw (.fatal (.releasedHandle h.guild))

def locked {α : Type} (guild : GuildId) (a : Handle → StoreAction α) : StoreAction α := do
  let h ← acquire guild
  (a h).thenRelease h

def settings (guild : GuildId) : StoreAction Settings := do
  match (← get).caches.settings.get? guild with
  | some s => pure s
  | none =>
    let s ← look (·.settingsOf guild)
    modifyCaches fun c => { c with settings := c.settings.set guild s }
    pure s

def setSettings (guild : GuildId) (s : Settings) : StoreAction Unit := do
  change_ fun t => .ok (t.putSettings (.ofSettings guild s))
  modifyCaches (·.forgetSettings guild)

def poll (key : PollKey) : StoreAction Poll := do
  match (← get).caches.polls.get? key with
  | some p => pure p
  | none =>
    let p ← look (·.fetch key)
    modifyCaches fun c => { c with polls := c.polls.set key p }
    pure p

/-- Stores a new poll under a key, whatever key the poll itself has. -/
def insert (key : PollKey) (p : Poll) (now : Instant) : StoreAction Unit := do
  let p := { p with guild := key.guild, id := key.poll }
  orInvalid p.validate
  change_ (·.insertPoll p now.millis)
  modifyCaches (·.forgetListed key)

/-- Gives a stored poll the text and the settings of another one. Options and answers stay. -/
def update (key : PollKey) (p : Poll) (now : Instant) : StoreAction Unit := do
  orInvalid p.validate
  change_ (·.updatePoll key p.title p.description p.settings now.millis)
  modifyCaches (·.forgetPoll key)

def edit (key : PollKey) (e : Edit) (now : Instant) : StoreAction Poll := do
  let p ← orInvalid ((← poll key).apply e)
  update key p now
  pure p

/-- Makes a selection the whole answer of a user. The empty selection takes it back. -/
def cast (key : PollKey) (voter : UserId) (chosen : List ChoiceId) (now : Instant) :
    StoreAction Unit := do
  let chosen := IdSet.ofList chosen
  match (← poll key).checkSelection chosen with
  | .error r => throw (.invalid (.ballot r))
  | .ok _ =>
    change_ (·.replaceAnswers key voter chosen.toList now.millis)
    modifyCaches (·.forgetPoll key)

def pollIds (guild : GuildId) : StoreAction IdSet := do
  match (← get).caches.pollIds.get? guild with
  | some ids => pure ids
  | none =>
    let ids ← look fun t => .ok (.ofList (t.pollIds guild))
    modifyCaches fun c => { c with pollIds := c.pollIds.set guild ids }
    pure ids

def lastEdit (key : PollKey) : StoreAction PollEdit := do
  let stamp ← look fun t =>
    match t.stamp? key with
    | some stamp => .ok stamp
    | none => .error .notFound
  liftExcept (PollEdit.ofStamp stamp)

def byGuild (keys : List PollKey) : List (GuildId × List PollKey) :=
  (keys.map (·.guild)).eraseDups.map fun guild => (guild, keys.filter (·.guild = guild))

def deleteEnded (cutoff : Int) (key : PollKey) : StoreAction Bool := do
  let deleted ← count (·.removeEnded key cutoff)
  if deleted then modifyCaches (·.forgetListed key)
  pure deleted

/-- Deletes the ended ones among the polls of a guild, under its lock, and counts them. Of a busy
guild none is deleted. -/
def deleteEndedOf (cutoff : Int) (guild : GuildId) (keys : List PollKey) : StoreAction Nat := do
  let (result, locks) := (← get).locks.acquire guild
  modify ({ · with locks })
  match result with
  | .error _ => pure 0
  | .ok h =>
    (do
      let deleted ← keys.mapM (deleteEnded cutoff)
      pure (deleted.count true)).thenRelease h

/-- Deletes the polls whose end lies strictly before an instant, guild by guild, and counts them.
Idle locks are forgotten afterwards. -/
def deleteExpired (before : Instant) : StoreAction Nat := do
  let cutoff := before.ceilSeconds
  let keys ← look fun t => .ok (t.endedBefore cutoff)
  let deleted ← (byGuild keys).foldlM (fun n (guild, keys) => do
    pure (n + (← deleteEndedOf cutoff guild keys))) 0
  modify fun s => { s with locks := s.locks.pruneIdle.2 }
  pure deleted

def endedUnrefreshed (now : Instant) : StoreAction (List PollKey) :=
  look fun t => .ok (t.awaitingFinal now.ceilSeconds)

def markFinal (keys : List PollKey) : StoreAction Nat :=
  if keys.isEmpty then pure 0 else count (·.markFinal keys)

def editedSince (cutoff : Instant) : StoreAction (List PollEdit) := do
  let stamps ← look fun t => .ok (t.unseenSince cutoff.millis)
  liftExcept (stamps.mapM PollEdit.ofStamp)

def markSeen (edits : List PollEdit) : StoreAction Nat :=
  if edits.isEmpty then pure 0 else count (·.markSeen (edits.map (·.toStamp)))

def persist (keys : List PollKey) : StoreAction Nat :=
  if keys.isEmpty then pure 0 else count (·.savePending keys)

def takePersisted (guild : GuildId) : StoreAction (List PollKey) := count (·.takePending guild)

def clearCaches : StoreAction Unit := modifyCaches fun _ => .empty

end Store

end PollKeeper
