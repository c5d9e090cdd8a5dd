import PollKeeper.Proofs.Store.Direct
import PollKeeper.Refresh.Service

/-!
# Interleavings

A service among its clients. Ticks and sweeps take place in phases, and between any two phases anything
else may happen: requests to the store, requests for refreshes, phases of other sweeps, shutdowns. Only
one tick runs at a time.

A record is kept beside the service of when each poll was changed, which texts were delivered and which
refreshes were dropped.
-/

namespace PollKeeper

open Time

def GuildRequest.changed? : GuildRequest → Option PollId
  | .insert id _ => some id
  | .update id _ => some id
  | .edit id _ => some id
  | .cast id _ _ => some id
  | _ => none

/-- The change of a poll that an event made, with its stamp in milliseconds. -/
def StoreEvent.change? : StoreEvent → StoreReply → Option (PollKey × Int)
  | .request now (.ofGuild h r), .answer (.ok _) =>
    r.changed?.map fun id => (⟨h.guild, id⟩, now.millis)
  | _, _ => none

/-- Events that clients cause. The notes about edits and refreshes belong to the scheduler. -/
def StoreEvent.isClients : StoreEvent → Bool
  | .request _ (.markFinal _) => false
  | .request _ (.markSeen _) => false
  | .request _ (.persist _) => false
  | .request _ (.takePersisted _) => false
  | _ => true

/-- How far the running tick has come. A text belongs to a version of its poll, which is the number
of changes that the poll had seen when it was read. -/
inductive TickPhase where
  | idle
  | popped (r : Refresh)
  | posting (a : Attempt) (version : Nat)
  | answered (a : Attempt) (version : Nat)

def TickPhase.begun : Option Refresh → TickPhase
  | none => idle
  | some r => popped r

/-- How far a sweep has come, with its start as long as it matters. -/
inductive SweepPhase where
  | edited (started : Instant) (found : List PollEdit)
  | askedEdited (started : Instant) (found : List PollEdit)
  | acknowledged (started : Instant)
  | ended (found : List PollKey)
  | askedEnded (found : List PollKey)
  deriving DecidableEq

namespace SweepPhase

open Service

def start (s : Service) (now : Instant) : Option SweepPhase × Service :=
  match outcome (onStore (Store.editedSince s.scheduler.editCutoff)) s with
  | (.ok found, s) => (some (.edited now found), s)
  | (.error _, s) => (none, s)

def advance (s : Service) (now : Instant) : SweepPhase → Option SweepPhase × Service
  | edited started found =>
    (some (.askedEdited started found), (outcome (enqueueAll now (found.map (·.key))) s).2)
  | askedEdited started found =>
    match outcome (finishUnseen started found) s with
    | (.ok _, s) => (some (.acknowledged started), s)
    | (.error _, s) => (none, s)
  | acknowledged started =>
    match outcome (onStore (Store.endedUnrefreshed started)) s with
    | (.ok found, s) => (some (.ended found), s)
    | (.error _, s) => (none, s)
  | ended found => (some (.askedEnded found), (outcome (enqueueAll now found) s).2)
  | askedEnded found => (none, (outcome (finishEnded found) s).2)

def asks : SweepPhase → List PollKey
  | edited _ found => found.map (·.key)
  | ended found => found
  | _ => []

end SweepPhase

def Posting.key (p : Posting) : PollKey := ⟨p.guild, p.message⟩

/-- A text that the chat platform has taken, and the version of the poll that it shows. -/
structure Delivery where
  posting : Posting
  version : Nat

def TickOutcome.isDrop : TickOutcome → Bool
  | .missing => true
  | .exhausted _ => true
  | _ => false

structure World where
  service : Service
  tick : TickPhase
  sweeps : List SweepPhase
  /-- The stamps of the changes of each poll, the latest first. -/
  changes : PollKey → List Int
  delivered : List Delivery
  /-- The polls whose refresh was dropped, each with its version at that time. -/
  dropped : List (PollKey × Nat)

namespace World

def fresh (config : SchedulerConfig) : World :=
  ⟨⟨.fresh, .fresh config⟩, .idle, [], fun _ => [], [], []⟩

def tables (w : World) : Tables := w.service.store.database.tables

def scheduler (w : World) : Scheduler := w.service.scheduler

def version (w : World) (key : PollKey) : Nat := (w.changes key).length

def noteChange (w : World) : Option (PollKey × Int) → World
  | some (key, stamp) =>
    { w with changes := fun k => if k = key then stamp :: w.changes k else w.changes k }
  | none => w

def noteDropped (w : World) (keys : List PollKey) : World :=
  { w with dropped := w.dropped ++ keys.map fun key => (key, w.version key) }

def endTick (w : World) (key : PollKey) (r : TickOutcome × Service) : World :=
  { w with service := r.2, tick := .idle }.noteDropped (if r.1.isDrop then [key] else [])

def reacted (w : World) (e : StoreEvent) : World :=
  let (reply, store) := w.service.store.react e
  { w with service := { w.service with store } }.noteChange (e.change? reply)

/-- The changes of each poll bear stamps that increase. -/
def Increasing (w : World) (e : StoreEvent) : Prop :=
  ∀ key stamp, e.change? (w.service.store.react e).1 = some (key, stamp) →
    ∀ last ∈ (w.changes key).head?, last < stamp

end World

open Service

variable [ZoneClocks]

inductive Step : World → World → Prop where
  | client {w : World} (e : StoreEvent) (hclient : e.isClients) (hstamp : w.Increasing e) :
      Step w (w.reacted e)
  | enqueue {w : World} (now : Instant) (key : PollKey) :
      Step w { w with service.scheduler := (w.scheduler.enqueue now key).2 }
  | pop {w : World} (now : Instant) (hidle : w.tick = .idle) :
      Step w ({ w with
        service.scheduler := (w.scheduler.take now).2
        tick := .begun (w.scheduler.take now).1 }.noteDropped
        ((w.scheduler.queue.popEligible now w.scheduler.isReachable).expired.map Refresh.key))
  | read {w : World} (now : Instant) {r : Refresh} {a : Attempt} {s : Service}
      (hpopped : w.tick = .popped r) (hread : w.service.prepare now r = (.posting a, s)) :
      Step w { w with service := s, tick := .posting a (w.version r.key) }
  | unreadable {w : World} (now : Instant) {r : Refresh} {outcome : TickOutcome} {s : Service}
      (hpopped : w.tick = .popped r) (hread : w.service.prepare now r = (.finished outcome, s)) :
      Step w (w.endTick r.key (outcome, s))
  | deliver {w : World} {a : Attempt} {version : Nat} (hposting : w.tick = .posting a version) :
      Step w { w with
        tick := .answered a version
        delivered := w.delivered ++ [⟨a.posting, version⟩] }
  | refuse {w : World} (now : Instant) (e : GatewayError) {a : Attempt} {version : Nat}
      (hposting : w.tick = .posting a version) :
      Step w (w.endTick a.refresh.key (w.service.finishTick now a (.error e)))
  | acknowledge {w : World} (now : Instant) {a : Attempt} {version : Nat}
      (hanswered : w.tick = .answered a version) :
      Step w (w.endTick a.refresh.key (w.service.finishTick now a (.ok ())))
  | sweep {w : World} (now : Instant) :
      Step w { w with
        service := (SweepPhase.start w.service now).2
        sweeps := w.sweeps ++ (SweepPhase.start w.service now).1.toList }
  | advance {w : World} (now : Instant) {before after : List SweepPhase} {p : SweepPhase}
      (hsweep : w.sweeps = before ++ p :: after) :
      Step w { w with
        service := (p.advance w.service now).2
        sweeps := before ++ (p.advance w.service now).1.toList ++ after }
  | abandon {w : World} {before after : List SweepPhase} {p : SweepPhase}
      (hsweep : w.sweeps = before ++ p :: after) :
      Step w { w with sweeps := before ++ after }
  | expire {w : World} (now : Instant) :
      Step w { w with service := (outcome (sweepExpired now) w.service).2 }
  /-- A shutdown, with or without an abort of the running tick. -/
  | shutdown {w : World} (tick : TickPhase) (htick : tick = w.tick ∨ tick = .idle) :
      Step w { w with service := (outcome Service.shutdown w.service).2, tick }
  | reachable {w : World} (now : Instant) (guild : GuildId) :
      Step w { w with service := (outcome (markReachable now guild) w.service).2 }
  | unreachable {w : World} (guild : GuildId) :
      Step w { w with service.scheduler := w.scheduler.markUnreachable guild }
  | restart {w : World} (hidle : w.tick = .idle) (hqueue : w.scheduler.queue.toList = [])
      (hflight : w.scheduler.inFlight = none) :
      Step w { w with service := w.service.restart, sweeps := [] }

/-- The worlds that a fresh service can come to. -/
inductive Reachable (config : SchedulerConfig) : World → Prop where
  | fresh : Reachable config (.fresh config)
  | step {w w' : World} (h : Reachable config w) (hstep : Step w w') : Reachable config w'

end PollKeeper
