import PollKeeper.Refresh.Gateway
import PollKeeper.Refresh.Queue
import PollKeeper.Refresh.Statistics
import PollKeeper.Refresh.Worker

/-!
# The scheduler

What is known about refreshes between two ticks: the queue, the refresh that is being done, the
guilds that can be reached, and how far the sweep for missed edits has come.
-/

namespace PollKeeper

open Time

structure SchedulerConfig where
  updateInterval : Span
  editSweepInterval : Span
  expirySweepInterval : Span
  /-- How long a queued refresh is worth doing. -/
  updateTimeout : Span
  retryPause : Span
  gatewayTimeout : Span
  /-- Attempts for each refresh, the first one included. -/
  maxTries : Nat
  retention : Span
  shutdownGrace : Span
  deriving DecidableEq

structure Scheduler where
  config : SchedulerConfig
  queue : RefreshQueue
  /-- The poll whose refresh a tick has taken off the queue and not finished. -/
  inFlight : Option PollKey
  reachable : IdSet
  /-- When the last successful sweep for missed edits began. -/
  editCursor : Option Instant
  statistics : Statistics
  worker : Worker

inductive TickOutcome where
  | idle
  | delivered
  | missing
  | retrying (attempts : Nat)
  | exhausted (attempts : Nat)
  deriving DecidableEq

/-- Edits from this long before the last sweep are looked at again. -/
def sweepSlack : Span := .ofSeconds 60

namespace Scheduler

def fresh (config : SchedulerConfig) : Scheduler :=
  ⟨config, .empty, none, .empty, none, .zero, .idle⟩

def record (s : Scheduler) (t : Tally) : Scheduler :=
  { s with statistics := s.statistics.record t }

def pending (s : Scheduler) : Nat := s.queue.size

def isReachable (s : Scheduler) (guild : GuildId) : Bool := guild ∈ s.reachable

def markReachable (s : Scheduler) (guild : GuildId) : Scheduler :=
  { s with reachable := s.reachable.insert guild }

def markUnreachable (s : Scheduler) (guild : GuildId) : Scheduler :=
  { s with reachable := s.reachable.erase guild }

/-- Asks for a refresh; tells whether it is new to the queue. -/
def enqueue (s : Scheduler) (now : Instant) (key : PollKey) : Bool × Scheduler :=
  let (added, queue) := s.queue.upsert ⟨key, now.plus s.config.updateTimeout, now, 0⟩
  (added, { s with queue })

def enqueueAll (s : Scheduler) (now : Instant) (keys : List PollKey) : Scheduler :=
  keys.foldl (fun s key => (s.enqueue now key).2) s

/-- Takes the next refresh off the queue and drops the expired ones before it. -/
def take (s : Scheduler) (now : Instant) : Option Refresh × Scheduler :=
  let popped := s.queue.popEligible now s.isReachable
  let s := { s with queue := popped.queue }.record (.expired popped.expired.length)
  match popped.next with
  | none => (none, s)
  | some r => (some r, { s with inFlight := some r.key })

/-- Puts a refresh back after a failure, unless it has failed too often. -/
def retry (s : Scheduler) (now : Instant) (r : Refresh) : TickOutcome × Scheduler :=
  let attempts := r.attempts + 1
  if s.config.maxTries ≤ attempts then (.exhausted attempts, s.record .exhausted)
  else
    let (_, queue) :=
      s.queue.upsert { r with attempts, nextTry := now.plus s.config.retryPause }
    (.retrying attempts, { s with queue }.record .retried)

/-- Ends the tick that has taken a refresh off the queue. -/
def settle (s : Scheduler) (now : Instant) (r : Refresh) (result : Except RefreshError Unit) :
    TickOutcome × Scheduler :=
  let s := { s with inFlight := none }
  match result with
  | .ok _ => (.delivered, s.record .delivered)
  | .error e => if e.isMissing then (.missing, s.record .missing) else s.retry now r

/-- From when on the sweep for missed edits has to look. -/
def editCutoff (s : Scheduler) : Instant :=
  match s.editCursor with
  | some previous => previous.minus sweepSlack
  | none => .earliest

/-- Takes out all that is to be done: the refresh that was interrupted, then the queue. -/
def takeAll (s : Scheduler) : List PollKey × Scheduler :=
  let (queued, queue) := s.queue.drain
  (s.inFlight.toList ++ queued.map (·.key), { s with inFlight := none, queue })

end Scheduler

end PollKeeper
