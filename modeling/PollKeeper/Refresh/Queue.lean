import PollKeeper.Keyed
import PollKeeper.Poll.Basic

/-!
# The queue of refreshes

Refreshes of poll messages that are still to be done, in the order in which they are considered,
and at most one for each poll. The view of a queue is `toList`.
-/

namespace PollKeeper

open Time

/-- A refresh of the message of one poll. -/
structure Refresh where
  key : PollKey
  /-- After this instant the refresh is not worth doing any more. -/
  timeout : Instant
  /-- Before this instant it is not tried. -/
  nextTry : Instant
  /-- How often it has failed. -/
  attempts : Nat
  deriving DecidableEq

namespace Refresh

def isExpired (r : Refresh) (now : Instant) : Bool := r.timeout < now

def isDue (r : Refresh) (now : Instant) : Bool := r.nextTry ≤ now

end Refresh

structure RefreshQueue where
  order : List PollKey
  entries : Keyed PollKey Refresh

/-- What a pass over the queue finds: the refresh to do next, the expired ones before it, and the
queue without them. -/
structure Popped where
  next : Option Refresh
  expired : List Refresh
  queue : RefreshQueue

namespace RefreshQueue

def empty : RefreshQueue := ⟨[], .empty⟩

def toList (q : RefreshQueue) : List Refresh := q.order.filterMap q.entries.get?

def size (q : RefreshQueue) : Nat := q.entries.size

/-- Adds a refresh at the end. If one of the same poll is queued already, that one stays where it is
and gets the later of both timeouts. Tells whether the refresh was added. -/
def upsert (q : RefreshQueue) (r : Refresh) : Bool × RefreshQueue :=
  match q.entries.get? r.key with
  | some old =>
    (false, { q with
      entries := q.entries.set r.key { old with timeout := old.timeout.later r.timeout } })
  | none => (true, ⟨q.order ++ [r.key], q.entries.set r.key r⟩)

/-- A pass over the keys in `order`. Keys that were passed over are in `skipped`. -/
def popFrom (now : Instant) (reachable : GuildId → Bool) (skipped : List PollKey) :
    List PollKey → Keyed PollKey Refresh → Popped
  | [], entries => ⟨none, [], ⟨skipped, entries⟩⟩
  | key :: rest, entries =>
    match entries.get? key with
    | none => popFrom now reachable skipped rest entries
    | some r =>
      if r.isExpired now then
        let popped := popFrom now reachable skipped rest (entries.erase key)
        { popped with expired := r :: popped.expired }
      else if r.isDue now && reachable key.guild then
        ⟨some r, [], ⟨rest ++ skipped, entries.erase key⟩⟩
      else popFrom now reachable (skipped ++ [key]) rest entries

/-- Takes out the first refresh that is due and of a reachable guild, and the expired ones before
it. Those that were passed over move to the end in their order. -/
def popEligible (q : RefreshQueue) (now : Instant) (reachable : GuildId → Bool) : Popped :=
  popFrom now reachable [] q.order q.entries

/-- Takes the entries of the keys out, one after another. -/
def takeOut : List PollKey → Keyed PollKey Refresh → List Refresh
  | [], _ => []
  | key :: rest, entries =>
    match entries.get? key with
    | none => takeOut rest entries
    | some r => r :: takeOut rest (entries.erase key)

def drain (q : RefreshQueue) : List Refresh × RefreshQueue := (takeOut q.order q.entries, empty)

end RefreshQueue

end PollKeeper
