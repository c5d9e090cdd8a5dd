import PollKeeper.Proofs.Refresh.Effect
import PollKeeper.Proofs.Refresh.Shutdown
import PollKeeper.Time.ZoneHistories

/-!
# The account of refreshes

Each refresh that a request has added to the line is settled, stands in line still or was taken out by a
shutdown. A refresh that has failed and stands in line again is the same one, and a request for a poll in
line adds none. The counters are words of 64 bits, and so the account is one of words.

Ticks are whole here: while a tick holds a refresh, nobody asks for another one of the same poll.
-/

namespace PollKeeper

open Time

def Statistics.settled (s : Statistics) : UInt64 := s.delivered + s.missing + s.expired + s.exhausted

namespace Scheduler

variable {s s' s'' : Scheduler} {r : Refresh}

/-- What the account of refreshes is about. -/
def account (s : Scheduler) : RefreshQueue × UInt64 := (s.queue, s.statistics.settled)

/-- The refreshes that are settled or stand in line. -/
def balance (s : Scheduler) : UInt64 := s.statistics.settled + .ofNat s.pending

/-- How many of some requests add a refresh to the line. -/
def additions (s : Scheduler) (now : Instant) : List PollKey → Nat
  | [] => 0
  | key :: rest =>
    let (added, s) := s.enqueue now key
    added.toNat + s.additions now rest

/-- Between two moments some refreshes have been added, and some were lost, that is, taken out and not
settled. -/
structure Books (s : Scheduler) (added lost : Nat) (s' : Scheduler) : Prop where
  sound : s'.queue.Sound
  balance : s'.balance + .ofNat lost = s.balance + .ofNat added

namespace Books

variable {added lost more gone : Nat}

theorem trans (h : s.Books added lost s') (h' : s'.Books more gone s'') :
    s.Books (added + more) (lost + gone) s'' := by
  refine ⟨h'.sound, ?_⟩
  have hfirst := h.balance
  have hsecond := h'.balance
  simp only [UInt64.ofNat_add]
  grind

theorem refl (h : s.queue.Sound) : s.Books 0 0 s := ⟨h, rfl⟩

theorem congr (h : s.Books added lost s') (hsame : s''.account = s'.account) : s.Books added lost s'' := by
  obtain ⟨hqueue, hsettled⟩ := Prod.mk.inj hsame
  refine ⟨hqueue ▸ h.sound, ?_⟩
  rw [← h.balance]
  simp only [Scheduler.balance, pending, hqueue, hsettled]

end Books

end Scheduler

/-- The clock at the three moments of a tick, and what the chat platform answers to it. -/
structure Tick where
  begun : Instant
  read : Instant
  ended : Instant
  answer : Except GatewayError Unit

inductive ServiceEvent where
  | store (store : Store)
  | request (now : Instant) (key : PollKey)
  | tick (t : Tick)
  | sweepEdits (now : Instant)
  | beginSweep (now : Instant)
  | advanceSweep (now : Instant) (p : SweepPhase)
  | sweepExpired (now : Instant)
  | reachable (now : Instant) (guild : GuildId)
  | unreachable (guild : GuildId)
  | shutdown

namespace Service

section

variable [ZoneClocks]

/-- A tick that nothing interrupts, and its outcome unless it breaks down. -/
def tick (s : Service) (t : Tick) : Option TickOutcome × Service :=
  let (next, scheduler) := s.scheduler.take t.begun
  match next with
  | none => (some .idle, { s with scheduler })
  | some r =>
    match { s with scheduler }.prepare t.read r with
    | (.finished outcome, s) => (some outcome, s)
    | (.panicked, s) => (none, s)
    | (.posting a, s) =>
      let (outcome, s) := s.finishTick t.ended a t.answer
      (some outcome, s)

def react (s : Service) : ServiceEvent → Service
  | .store store => { s with store }
  | .request now key => { s with scheduler := (s.scheduler.enqueue now key).2 }
  | .tick t => (s.tick t).2
  | .sweepEdits now => (outcome (sweepEdits now) s).2
  | .beginSweep now => (SweepPhase.start s now).2
  | .advanceSweep now p => (p.advance s now).2
  | .sweepExpired now => (outcome (sweepExpired now) s).2
  | .reachable now guild => (outcome (markReachable now guild) s).2
  | .unreachable guild => { s with scheduler := s.scheduler.markUnreachable guild }
  | .shutdown => (outcome shutdown s).2

def after (s : Service) (events : List ServiceEvent) : Service := events.foldl react s

/-- The requests of an event that add a refresh to the line. -/
def added (s : Service) : ServiceEvent → Nat
  | .request now key => s.scheduler.additions now [key]
  | .sweepEdits now =>
    s.scheduler.additions now (s.unseenEdits.map (·.key)) +
      (outcome (sweepUnseen now) s).2.scheduler.additions now (s.finalRequests now)
  | .advanceSweep now p => s.scheduler.additions now p.asks
  | .reachable now guild =>
    (s.scheduler.markReachable guild).additions now (s.finds (onStore (Store.takePersisted guild)))
  | _ => 0

/-- The refreshes in line that a shutdown takes out. -/
def drained (s : Service) : ServiceEvent → Nat
  | .shutdown => s.scheduler.pending
  | _ => 0

/-- The ticks that break down. -/
def broken (s : Service) : ServiceEvent → Nat
  | .tick t => (s.tick t).1.isNone.toNat
  | _ => 0

/-- How often something is counted in a run. -/
def total (count : Service → ServiceEvent → Nat) (s : Service) : List ServiceEvent → Nat
  | [] => 0
  | e :: rest => count s e + (s.react e).total count rest

end

variable {α β : Type} {s : Service}

section

variable [ZoneClocks]

end

open ZoneHistories

end Service
end PollKeeper
