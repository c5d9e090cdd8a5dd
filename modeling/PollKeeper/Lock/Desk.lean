import PollKeeper.Lock.Basic

/-!
# The lock desk

Tasks ask for locks under names of their own, and later give up waiting, give the lock back, or walk
away. A task that nobody keeps track of any more goes on waiting, and is known again by its name
once it has its lock.
-/

namespace PollKeeper

/-- What a name stands for: a handle, or a wait that was cancelled. -/
inductive DeskEntry where
  | handle (h : Handle)
  | interrupted
  deriving DecidableEq

inductive EntryState where
  | waiting
  | held (guild : GuildId)
  | released (guild : GuildId)
  | interrupted
  deriving DecidableEq

structure Desk where
  locks : Locks
  entries : Keyed String DeskEntry
  strays : List (String × Handle)

inductive DeskRequest where
  | acquire (name : String) (guild : GuildId)
  /-- Try to obtain a lock with an attempt that is cancelled already. -/
  | acquireCancelled (guild : GuildId)
  | wait (name : String) (guild : GuildId)
  /-- Stop waiting and say so. -/
  | cancel (name : String)
  /-- Stop waiting without a trace. -/
  | abort (name : String)
  | release (name : String)
  | drop (name : String)
  | prune
  deriving DecidableEq

inductive DeskAnswer where
  | done
  | failed (e : LockFailure)
  | flag (b : Bool)
  | count (n : Nat)
  deriving DecidableEq

namespace Desk

def empty : Desk := ⟨.empty, .empty, []⟩

def stateOf (d : Desk) : DeskEntry → EntryState
  | .interrupted => .interrupted
  | .handle h =>
    if d.locks.isWaiting h then .waiting
    else if d.locks.isHeld h then .held h.guild
    else .released h.guild

def waiting? (d : Desk) (name : String) : Option Handle :=
  match d.entries.get? name with
  | some (.handle h) => if d.locks.isWaiting h then some h else none
  | _ => none

def forget (d : Desk) (name : String) : Desk :=
  let kept := { d with entries := d.entries.erase name }
  match d.entries.get? name with
  | some (.handle h) =>
    if d.locks.isWaiting h then { kept with strays := d.strays ++ [(name, h)] }
    else { kept with locks := d.locks.release h }
  | _ => kept

def keep (d : Desk) (name : String) (e : DeskEntry) : Desk :=
  let d := d.forget name
  { d with entries := d.entries.set name e }

def returning? (d : Desk) : Option (String × Handle) :=
  d.strays.find? fun (_, h) => d.locks.isHeld h

def welcome (d : Desk) (name : String) (h : Handle) : Desk :=
  { d with strays := d.strays.filter (·.2 ≠ h) }.keep name (.handle h)

/-- Welcomes strays one after another. What a name stood for before is dropped, so a lock that it
held goes to the next in line, who may be a stray as well. -/
def gather : Nat → Desk → Desk
  | 0, d => d
  | fuel + 1, d =>
    match d.returning? with
    | none => d
    | some (name, h) => gather fuel (d.welcome name h)

def taskBound (d : Desk) : Nat := d.strays.length + d.entries.size

def stopWaiting (d : Desk) (name : String) (h : Handle) : Desk :=
  { d with locks := d.locks.giveUp h, entries := d.entries.erase name }

/-- Answers a request; the tasks that it affects have not been looked after yet. -/
def handle (d : Desk) : DeskRequest → DeskAnswer × Desk
  | .acquire name guild =>
    match d.locks.acquire guild with
    | (.ok h, locks) => (.done, { d with locks }.keep name (.handle h))
    | (.error e, locks) => (.failed e, { d with locks })
  | .acquireCancelled guild =>
    match d.locks.acquireUnless true guild with
    | (.ok h, locks) => (.done, { d with locks := locks.release h })
    | (.error e, locks) => (.failed e, { d with locks })
  | .wait name guild =>
    let (h, locks) := d.locks.request guild
    (.done, { d with locks }.keep name (.handle h))
  | .cancel name =>
    match d.waiting? name with
    | some h => (.done, (d.stopWaiting name h).keep name .interrupted)
    | none => (.done, d)
  | .abort name =>
    match d.waiting? name with
    | some h => (.flag true, d.stopWaiting name h)
    | none => (.flag false, d)
  | .release name =>
    match d.entries.get? name with
    | some (.handle h) => (.done, { d with locks := d.locks.release h })
    | _ => (.done, d)
  | .drop name => (.done, d.forget name)
  | .prune =>
    let (n, locks) := d.locks.pruneIdle
    (.count n, { d with locks })

/-- Answers a request and looks after the tasks that can go on. -/
def answer (d : Desk) (r : DeskRequest) : DeskAnswer × Desk :=
  let (a, d) := d.handle r
  (a, gather d.taskBound d)

end Desk

end PollKeeper
