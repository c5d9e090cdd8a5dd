import PollKeeper.Poll.Message
import PollKeeper.Refresh.Scheduler
import PollKeeper.Store.Basic

/-!
# The service

A store with a scheduler that keeps the messages of its polls up to date. A tick does one refresh:
the poll is read under the lock of its guild and rendered, the text goes to the chat platform while
the lock is free, and a success is acknowledged. Two sweeps ask for refreshes that were lost and
delete polls that ended long ago.
-/

namespace PollKeeper

open Time

structure Service where
  store : Store
  scheduler : Scheduler

/-- A step of the service: it may change the service, also when it fails. -/
abbrev ServiceAction (α : Type) := ExceptT StoreError (StateM Service) α

/-- A refresh on its way to the chat platform, with the edit that its text shows. -/
structure Attempt where
  refresh : Refresh
  posting : Posting
  edit : PollEdit
  deriving DecidableEq

/-- How far a tick comes before the chat platform is asked. -/
inductive TickStart where
  | finished (outcome : TickOutcome)
  /-- The poll cannot be rendered, because its end is out of range. -/
  | panicked
  | posting (attempt : Attempt)
  deriving DecidableEq

/-- A poll with its latest edit, read under one lock. -/
def Store.refreshable (key : PollKey) : StoreAction (Poll × PollEdit) :=
  locked key.guild fun _ => do
    let p ← poll key
    let edit ← lastEdit key
    pure (p, edit)

namespace Service

variable {α : Type} [ZoneClocks]

def outcome (a : ServiceAction α) (s : Service) : Except StoreError α × Service :=
  (ExceptT.run a).run s

def onStore (a : StoreAction α) : ServiceAction α := do
  let (result, store) := a.outcome (← get).store
  modify ({ · with store })
  match result with
  | .ok a => pure a
  | .error e => throw e

def onScheduler (f : Scheduler → α × Scheduler) : ServiceAction α := do
  let (a, scheduler) := f (← get).scheduler
  modify ({ · with scheduler })
  pure a

def record (t : Tally) : ServiceAction Unit := onScheduler fun s => ((), s.record t)

/-- Replaces the scheduler by a new one. Nothing is saved. -/
def restart (s : Service) : Service :=
  { s with scheduler := .fresh s.scheduler.config }

/-- The middle part of a tick: reads the poll of a refresh and renders it. A refresh for which that
fails is settled at once. -/
def prepare (s : Service) (now : Instant) (r : Refresh) : TickStart × Service :=
  let (found, store) := (Store.refreshable r.key).outcome s.store
  match found with
  | .error e =>
    let (outcome, scheduler) := s.scheduler.settle now r (.error (.store e))
    (.finished outcome, ⟨store, scheduler⟩)
  | .ok (p, edit) =>
    match p.message? with
    | none => (.panicked, { s with store })
    | some text =>
      (.posting ⟨r, ⟨r.key.guild, p.channel, r.key.poll, text⟩, edit⟩, { s with store })

/-- A tick up to the chat platform: takes a refresh off the queue and prepares it. -/
def beginTick (s : Service) (now : Instant) : TickStart × Service :=
  let (next, scheduler) := s.scheduler.take now
  match next with
  | none => (.finished .idle, { s with scheduler })
  | some r => { s with scheduler }.prepare now r

/-- The last part of a tick, after the chat platform has answered. A success is acknowledged; it
stays one if that fails. -/
def finishTick (s : Service) (now : Instant) (a : Attempt) (answer : Except GatewayError Unit) :
    TickOutcome × Service :=
  let store :=
    match answer with
    | .ok _ => ((Store.markSeen [a.edit]).outcome s.store).2
    | .error _ => s.store
  let (outcome, scheduler) :=
    s.scheduler.settle now a.refresh (answer.mapError .gateway)
  (outcome, ⟨store, scheduler⟩)

def enqueueAll (now : Instant) (keys : List PollKey) : ServiceAction Unit :=
  onScheduler fun s => ((), s.enqueueAll now keys)

/-- Acknowledges the edits for which a sweep has asked refreshes; from then on the next sweep has to
look at edits from shortly before the start of this one. -/
def finishUnseen (started : Instant) (edits : List PollEdit) : ServiceAction Nat := do
  let _ ← onStore (Store.markSeen edits)
  onScheduler fun s => ((), { s with editCursor := some started })
  record (.editsFound edits.length)
  pure edits.length

/-- Asks for a refresh of every poll with an edit that nobody has seen since shortly before the last
sweep, and acknowledges those edits. -/
def sweepUnseen (now : Instant) : ServiceAction Nat := do
  let edits ← onStore (Store.editedSince (← get).scheduler.editCutoff)
  enqueueAll now (edits.map (·.key))
  finishUnseen now edits

def finishEnded (keys : List PollKey) : ServiceAction Nat := do
  let _ ← onStore (Store.markFinal keys)
  record (.finalRefreshes keys.length)
  pure keys.length

/-- Asks for the final refresh of every poll that ended and still awaits it. -/
def sweepEnded (now : Instant) : ServiceAction Nat := do
  let keys ← onStore (Store.endedUnrefreshed now)
  enqueueAll now keys
  finishEnded keys

/-- The sweep for missed edits; counts the refreshes that were asked for. -/
def sweepEdits (now : Instant) : ServiceAction Nat := do
  let unseen ← sweepUnseen now
  let ended ← sweepEnded now
  pure (unseen + ended)

/-- Deletes the polls that ended more than the retention ago. -/
def sweepExpired (now : Instant) : ServiceAction Nat := do
  let deleted ← onStore (Store.deleteExpired (now.minus (← get).scheduler.config.retention))
  record (.pollsDeleted deleted)
  pure deleted

/-- Notes that a guild is reachable and asks again for the refreshes that were kept for it. -/
def markReachable (now : Instant) (guild : GuildId) : ServiceAction Nat := do
  onScheduler fun s => ((), s.markReachable guild)
  let keys ← onStore (Store.takePersisted guild)
  enqueueAll now keys
  pure keys.length

/-- Stops the worker and keeps all refreshes that are still to be done for later; counts them. -/
def shutdown : ServiceAction Nat := do
  let keys ← onScheduler fun s => { s with worker := s.worker.stop }.takeAll
  let _ ← onStore (Store.persist keys)
  pure keys.length

end Service

end PollKeeper
