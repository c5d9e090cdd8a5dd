import PollKeeper.Proofs.Poll.Validity
import PollKeeper.Proofs.Refresh.Entry
import PollKeeper.Proofs.Refresh.Phases
import PollKeeper.Proofs.Store.FinalNotes

/-!
# Sessions

A service with the tick and the sweeps that are under way in it, as a machine that reacts to one event
after the other. Between any two moves of a tick or of a sweep anything else may happen; clocks may show
any time, and only one tick runs at a time. What an event may do to the notes of the polls and to a refresh
in line is said once, by `Session.Effect`.
-/

namespace PollKeeper

open Time Service

variable [ZoneClocks]

/-- How far the running tick has come. -/
inductive TickStage where
  | resting
  | reading (r : Refresh)
  | posting (a : Attempt)
  | acknowledging (a : Attempt)
  deriving DecidableEq

inductive TickMove where
  | begin (now : Instant)
  | read (now : Instant)
  | refuse (now : Instant) (e : GatewayError)
  | deliver
  | acknowledge (now : Instant)

/-- What can be seen of a move. -/
inductive TickReport where
  | silent
  | called (a : Attempt)
  | panicked
  | ended (outcome : TickOutcome)
  deriving DecidableEq

namespace TickStage

def refresh? : TickStage → Option Refresh
  | resting => none
  | reading r => some r
  | posting a => some a.refresh
  | acknowledging a => some a.refresh

/-- A move of the tick; one whose turn it is not does nothing. -/
def move (s : Service) : TickStage → TickMove → TickReport × Service × TickStage
  | resting, .begin now =>
    let (next, scheduler) := s.scheduler.take now
    match next with
    | none => (.ended .idle, { s with scheduler }, resting)
    | some r => (.silent, { s with scheduler }, reading r)
  | reading r, .read now =>
    match s.prepare now r with
    | (.finished outcome, s) => (.ended outcome, s, resting)
    | (.panicked, s) => (.panicked, s, resting)
    | (.posting a, s) => (.called a, s, posting a)
  | posting a, .refuse now e =>
    let (outcome, s) := s.finishTick now a (.error e)
    (.ended outcome, s, resting)
  | posting a, .deliver => (.silent, s, acknowledging a)
  | acknowledging a, .acknowledge now =>
    let (outcome, s) := s.finishTick now a (.ok ())
    (.ended outcome, s, resting)
  | stage, _ => (.silent, s, stage)

end TickStage

namespace SweepPhase

def listed : SweepPhase → List PollKey
  | ended found => found
  | askedEnded found => found
  | _ => []

def notes : SweepPhase → List PollKey
  | askedEnded found => found
  | _ => []

end SweepPhase

namespace Service

def finds {α : Type} (query : ServiceAction (List α)) (s : Service) : List α :=
  match (outcome query s).1 with
  | .ok found => found
  | .error _ => []

/-- The unseen edits for which a sweep asks refreshes. -/
def unseenEdits (s : Service) : List PollEdit :=
  s.finds (onStore (Store.editedSince s.scheduler.editCutoff))

def endedPolls (s : Service) (now : Instant) : List PollKey :=
  s.finds (onStore (Store.endedUnrefreshed now))

/-- The polls whose final refresh a sweep asks for that nothing interrupts. -/
def finalRequests (s : Service) (now : Instant) : List PollKey :=
  s.finds do
    let _ ← sweepUnseen now
    onStore (Store.endedUnrefreshed now)

end Service

structure Session where
  service : Service
  tick : TickStage
  /-- Any number of sweeps may be under way. -/
  sweeps : Nat → Option SweepPhase

inductive SessionEvent where
  | client (e : StoreEvent) (he : e.isClients)
  | request (now : Instant) (key : PollKey)
  | tick (m : TickMove)
  | sweepEdits (now : Instant)
  | beginSweep (i : Nat) (now : Instant)
  | advanceSweep (i : Nat) (now : Instant)
  | dropSweep (i : Nat)
  | sweepExpired (now : Instant)
  /-- A shutdown, which may abort the running tick. -/
  | shutdown (aborts : Bool)
  | reachable (now : Instant) (guild : GuildId)
  | unreachable (guild : GuildId)
  | restart

def SessionEvent.failsAt? : SessionEvent → Option Instant
  | .tick (.read now) => some now
  | .tick (.refuse now _) => some now
  | _ => none

namespace Session

def fresh (config : SchedulerConfig) : Session := ⟨⟨.fresh, .fresh config⟩, .resting, fun _ => none⟩

def tables (w : Session) : Tables := w.service.tables

def scheduler (w : Session) : Scheduler := w.service.scheduler

def inLine? (w : Session) (key : PollKey) : Option Refresh := w.scheduler.queue.get? key

/-- The refresh that the running tick has taken off the line. -/
def inFlight? (w : Session) : Option Refresh := w.tick.refresh?

def withSweep (w : Session) (i : Nat) (p : Option SweepPhase × Service) : Session :=
  { w with service := p.2, sweeps := fun j => if j = i then p.1 else w.sweeps j }

def react (w : Session) : SessionEvent → Session
  | .client e _ => { w with service.store := (w.service.store.react e).2 }
  | .request now key => { w with service.scheduler := (w.scheduler.enqueue now key).2 }
  | .tick m =>
    let (_, service, tick) := w.tick.move w.service m
    { w with service, tick }
  | .sweepEdits now => { w with service := (outcome (Service.sweepEdits now) w.service).2 }
  | .beginSweep i now => w.withSweep i (SweepPhase.start w.service now)
  | .advanceSweep i now =>
    match w.sweeps i with
    | some p => w.withSweep i (p.advance w.service now)
    | none => w
  | .dropSweep i => w.withSweep i (none, w.service)
  | .sweepExpired now => { w with service := (outcome (Service.sweepExpired now) w.service).2 }
  | .shutdown aborts =>
    { w with
      service := (outcome Service.shutdown w.service).2
      tick := if aborts then .resting else w.tick }
  | .reachable now guild => { w with service := (outcome (markReachable now guild) w.service).2 }
  | .unreachable guild => { w with service.scheduler := w.scheduler.markUnreachable guild }
  | .restart => ⟨w.service.restart, .resting, fun _ => none⟩

def after (w : Session) (events : List SessionEvent) : Session := events.foldl react w

theorem after_append (w : Session) (events more : List SessionEvent) :
    w.after (events ++ more) = (w.after events).after more := List.foldl_append

theorem after_concat (w : Session) (events : List SessionEvent) (e : SessionEvent) :
    w.after (events ++ [e]) = (w.after events).react e := w.after_append events [e]

/-- What can be seen of the running tick. -/
def report (w : Session) : SessionEvent → TickReport
  | .tick m => (w.tick.move w.service m).1
  | _ => .silent

/-- The event asks for the refresh of a poll, at an instant. -/
inductive Asks (w : Session) : SessionEvent → Instant → PollKey → Prop where
  | request (now : Instant) (key : PollKey) : w.Asks (.request now key) now key
  | restored (now : Instant) (guild : GuildId) {key : PollKey} (h : key ∈ w.tables.pendingOf guild) :
      w.Asks (.reachable now guild) now key
  | swept (now : Instant) {key : PollKey}
      (h : key ∈ w.service.unseenEdits.map (·.key) ++ w.service.finalRequests now) :
      w.Asks (.sweepEdits now) now key
  | advanced (now : Instant) (i : Nat) (p : SweepPhase) {key : PollKey} (hp : w.sweeps i = some p)
      (h : key ∈ p.asks) : w.Asks (.advanceSweep i now) now key

def listed (w : Session) : SessionEvent → List PollKey
  | .sweepEdits now => w.service.finalRequests now
  | .advanceSweep i _ =>
    match w.sweeps i with
    | some (.acknowledged started) => w.service.endedPolls started
    | _ => []
  | _ => []

def noted (w : Session) : SessionEvent → List PollKey
  | .sweepEdits now => w.service.finalRequests now
  | .advanceSweep i _ => ((w.sweeps i).map (·.notes)).getD []
  | _ => []

/-- Some event of a run does something. -/
def Sometime (P : Session → SessionEvent → Prop) (w : Session) : List SessionEvent → Prop
  | [] => False
  | e :: rest => P w e ∨ Sometime P (w.react e) rest

instance decidableSometime (P : Session → SessionEvent → Prop) [∀ w e, Decidable (P w e)] :
    ∀ (w : Session) (events : List SessionEvent), Decidable (w.Sometime P events)
  | _, [] => inferInstanceAs (Decidable False)
  | w, e :: rest =>
    have := decidableSometime P (w.react e) rest
    inferInstanceAs (Decidable (_ ∨ _))

/-- Something holds at the beginning of a run and after each of its events. -/
def Throughout (P : Session → Prop) (w : Session) : List SessionEvent → Prop
  | [] => P w
  | e :: rest => P w ∧ Throughout P (w.react e) rest

instance decidableThroughout (P : Session → Prop) [∀ w, Decidable (P w)] :
    ∀ (w : Session) (events : List SessionEvent), Decidable (w.Throughout P events)
  | w, [] => inferInstanceAs (Decidable (P w))
  | w, e :: rest =>
    have := decidableThroughout P (w.react e) rest
    inferInstanceAs (Decidable (_ ∧ _))

theorem sometime_append {P : Session → SessionEvent → Prop} {w : Session}
    {events more : List SessionEvent} :
    w.Sometime P (events ++ more) ↔ w.Sometime P events ∨ (w.after events).Sometime P more := by
  induction events generalizing w with
  | nil => simp [Sometime, after]
  | cons e rest ih =>
    rw [List.cons_append, Sometime, ih, Sometime, or_assoc]
    rfl

theorem Sometime.imp {P Q : Session → SessionEvent → Prop} {w : Session} {events : List SessionEvent}
    (hPQ : ∀ v e, P v e → Q v e) (h : w.Sometime P events) : w.Sometime Q events := by
  induction events generalizing w with
  | nil => exact h
  | cons e rest ih => exact Or.imp (hPQ w e) ih h

theorem throughout_concat {P : Session → Prop} {w : Session} {events : List SessionEvent}
    {e : SessionEvent} :
    w.Throughout P (events ++ [e]) ↔ w.Throughout P events ∧ P ((w.after events).react e) := by
  induction events generalizing w with
  | nil => exact Iff.rfl
  | cons first rest ih =>
    rw [List.cons_append, Throughout, ih, Throughout, and_assoc]
    rfl

theorem Throughout.head {P : Session → Prop} {w : Session} {events : List SessionEvent}
    (h : w.Throughout P events) : P w := by
  cases events with
  | nil => exact h
  | cons e rest => exact h.1

theorem throughout_append {P : Session → Prop} {w : Session} {events more : List SessionEvent} :
    w.Throughout P (events ++ more) ↔ w.Throughout P events ∧ (w.after events).Throughout P more := by
  induction events generalizing w with
  | nil => exact ⟨fun h => ⟨h.head, h⟩, And.right⟩
  | cons first rest ih =>
    rw [List.cons_append, Throughout, ih, Throughout, and_assoc]
    rfl

theorem Throughout.last {P : Session → Prop} {w : Session} {events : List SessionEvent}
    (h : w.Throughout P events) : P (w.after events) := by
  induction events generalizing w with
  | nil => exact h
  | cons e rest ih => exact ih h.2

def insertLunch : List SessionEvent :=
  [.client (.acquire 1) rfl,
    .client (.request .earliest (.ofGuild ⟨1, 0⟩ (.insert 7
      { Poll.lunch with choices := [⟨1, "Here", .empty⟩] }))) rfl]

end Session
end PollKeeper
