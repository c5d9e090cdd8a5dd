import PollKeeper.Keyed
import PollKeeper.Poll.Basic

/-!
# Guild locks

One lock for each guild. It has a holder or not, and those who wait for it stand in line; whoever
gives it up passes it to the first in line. A lock that nobody holds or waits for may be forgotten
at any time.
-/

namespace PollKeeper

/-- A request for the lock of a guild, granted or not. No ticket is given out twice. -/
structure Handle where
  guild : GuildId
  ticket : Nat
  deriving DecidableEq

/-- The lock of one guild: the ticket that holds it, and those in line, the longest waiting
first. -/
structure Lock where
  holder : Option Nat
  waiters : List Nat
  deriving DecidableEq

namespace Lock

def free : Lock := ⟨none, []⟩

def references (l : Lock) : Nat := l.holder.toList.length + l.waiters.length

/-- A newcomer takes a free lock at once; else it stands last in line. -/
def join (l : Lock) (ticket : Nat) : Lock :=
  if l.holder.isNone ∧ l.waiters.isEmpty then { l with holder := some ticket }
  else { l with waiters := l.waiters ++ [ticket] }

def passOn (l : Lock) : Lock := ⟨l.waiters.head?, l.waiters.tail⟩

/-- A holder gives the lock up; for anybody else nothing happens. -/
def release (l : Lock) (ticket : Nat) : Lock :=
  if l.holder = some ticket then l.passOn else l

def leave (l : Lock) (ticket : Nat) : Lock := { l with waiters := l.waiters.erase ticket }

end Lock

inductive LockFailure where
  | timedOut (guild : GuildId)
  | interrupted (guild : GuildId)
  deriving DecidableEq

/-- The locks of all guilds, and how many tickets were given out. -/
structure Locks where
  entries : Keyed GuildId Lock
  issued : Nat

namespace Locks

def empty : Locks := ⟨.empty, 0⟩

/-- The lock of a guild; a guild without an entry has a free one. -/
def lockOf (l : Locks) (guild : GuildId) : Lock := (l.entries.get? guild).getD .free

def setLock (l : Locks) (guild : GuildId) (lock : Lock) : Locks :=
  { l with entries := l.entries.set guild lock }

def isHeld (l : Locks) (h : Handle) : Bool := (l.lockOf h.guild).holder = some h.ticket

def isWaiting (l : Locks) (h : Handle) : Bool := h.ticket ∈ (l.lockOf h.guild).waiters

def request (l : Locks) (guild : GuildId) : Handle × Locks :=
  let ticket := l.issued
  (⟨guild, ticket⟩, { l.setLock guild ((l.lockOf guild).join ticket) with issued := ticket + 1 })

/-- Stops waiting: the wait ran out, was cancelled or was aborted. -/
def giveUp (l : Locks) (h : Handle) : Locks :=
  if l.isWaiting h then l.setLock h.guild ((l.lockOf h.guild).leave h.ticket) else l

/-- Gives the lock back. Doing so again changes nothing. -/
def release (l : Locks) (h : Handle) : Locks :=
  if l.isHeld h then l.setLock h.guild ((l.lockOf h.guild).release h.ticket) else l

/-- Asks for a lock and gives up if it is not free. A guild that had no lock gets one. -/
def acquire (l : Locks) (guild : GuildId) : Except LockFailure Handle × Locks :=
  let (h, l) := l.request guild
  if l.isHeld h then (.ok h, l) else (.error (.timedOut guild), l.giveUp h)

/-- Like `acquire`, unless the attempt was cancelled beforehand; then no lock is touched. -/
def acquireUnless (cancelled : Bool) (l : Locks) (guild : GuildId) :
    Except LockFailure Handle × Locks :=
  if cancelled then (.error (.interrupted guild), l) else l.acquire guild

/-- Forgets the locks that nobody holds or waits for, and counts them. -/
def pruneIdle (l : Locks) : Nat × Locks :=
  let kept := l.entries.filter fun (_, lock) => lock.references ≠ 0
  (l.entries.size - kept.size, { l with entries := kept })

def size (l : Locks) : Nat := l.entries.size

end Locks

end PollKeeper
