import PollKeeper.Proofs.Storage.Slice
import PollKeeper.Store.Request

/-!
# A store without caches

What each request does to the tables if it reads them itself, as a plain function of the tables, and
the runs of such a store. A request within a guild that fails leaves the tables as they were.
-/

namespace PollKeeper

open Time

def Poll.under (key : PollKey) (p : Poll) : Poll := { p with guild := key.guild, id := key.poll }

namespace Tables

def create (t : Tables) (key : PollKey) (p : Poll) (now : Instant) : Except StoreError Tables := do
  (p.under key).validate.mapError fun e => .invalid (.poll e)
  (t.insertPoll (p.under key) now.millis).mapError .ofStorage

def revise (t : Tables) (key : PollKey) (p : Poll) (now : Instant) : Except StoreError Tables := do
  p.validate.mapError fun e => .invalid (.poll e)
  (t.updatePoll key p.title p.description p.settings now.millis).mapError .ofStorage

def amend (t : Tables) (key : PollKey) (e : Edit) (now : Instant) :
    Except StoreError (Poll × Tables) := do
  let p ← (t.fetch key).mapError .ofStorage
  let p ← (p.apply e).mapError fun e => .invalid (.poll e)
  pure (p, ← t.revise key p now)

def castAnswers (t : Tables) (key : PollKey) (voter : UserId) (chosen : IdSet) (now : Instant) :
    Except StoreError Tables := do
  let p ← (t.fetch key).mapError .ofStorage
  (p.checkSelection chosen).mapError fun r => .invalid (.ballot r)
  (t.replaceAnswers key voter chosen.toList now.millis).mapError .ofStorage

def latestEdit (t : Tables) (key : PollKey) : Except StoreError PollEdit :=
  match t.stamp? key with
  | some stamp => PollEdit.ofStamp stamp
  | none => .error .notFound

def serve (guild : GuildId) (now : Instant) (t : Tables) :
    GuildRequest → Except StoreError (Answer × Tables)
  | .settings => do pure (.settings (← (t.settingsOf guild).mapError .ofStorage), t)
  | .setSettings s => pure (.done, t.putSettings (.ofSettings guild s))
  | .poll id => do pure (.poll (← (t.fetch ⟨guild, id⟩).mapError .ofStorage), t)
  | .insert id p => do pure (.done, ← t.create ⟨guild, id⟩ p now)
  | .update id p => do pure (.done, ← t.revise ⟨guild, id⟩ p now)
  | .edit id e => do
    let (p, t) ← t.amend ⟨guild, id⟩ e now
    pure (.poll p, t)
  | .cast id voter chosen => do pure (.done, ← t.castAnswers ⟨guild, id⟩ voter (.ofList chosen) now)
  | .pollIds => pure (.ids (.ofList (t.pollIds guild)), t)
  | .lastEdit id => do pure (.edit (← t.latestEdit ⟨guild, id⟩), t)

/-- Deletes the ended ones among some polls, and counts them. -/
def removeAllEnded (cutoff : Int) : List PollKey → Tables → Nat × Tables
  | [], t => (0, t)
  | key :: rest, t =>
    let (removed, t) := t.removeEnded key cutoff
    let (n, t) := removeAllEnded cutoff rest t
    (n + (if removed then 1 else 0), t)

end Tables

structure DirectStore where
  tables : Tables
  locks : Locks

namespace DirectStore

/-- The store with caches in front of it. -/
def withCaches (s : DirectStore) (c : Caches) : Store := ⟨⟨s.tables, false⟩, c, s.locks⟩

def fresh : DirectStore := ⟨.empty, .empty⟩

def deleteEndedOf (cutoff : Int) (s : DirectStore) (guild : GuildId) (keys : List PollKey) :
    Nat × DirectStore :=
  match s.locks.acquire guild with
  | (.error _, locks) => (0, { s with locks })
  | (.ok h, locks) =>
    let (n, tables) := Tables.removeAllEnded cutoff keys s.tables
    (n, ⟨tables, locks.release h⟩)

def deleteExpired (s : DirectStore) (before : Instant) : Nat × DirectStore :=
  let cutoff := before.ceilSeconds
  let (n, s) := (Store.byGuild (s.tables.endedBefore cutoff)).foldl (fun (n, s) (guild, keys) =>
    let (m, s) := s.deleteEndedOf cutoff guild keys
    (n + m, s)) (0, s)
  (n, { s with locks := s.locks.pruneIdle.2 })

def served {α : Type} (s : DirectStore) :
    Except StoreError (α × Tables) → Except StoreError α × DirectStore
  | .ok (x, tables) => (.ok x, { s with tables })
  | .error e => (.error e, s)

def counted (s : DirectStore) (r : Nat × Tables) : Except StoreError Answer × DirectStore :=
  s.served (.ok (.count r.1, r.2))

def answer (s : DirectStore) (now : Instant) : Request → Except StoreError Answer × DirectStore
  | .ofGuild h r =>
    if s.locks.isHeld h then s.served (s.tables.serve h.guild now r)
    else (.error (.fatal (.releasedHandle h.guild)), s)
  | .deleteExpired before =>
    let (n, s) := s.deleteExpired before
    (.ok (.count n), s)
  | .endedUnrefreshed t => s.served (.ok (.keys (s.tables.awaitingFinal t.ceilSeconds), s.tables))
  | .markFinal keys => s.counted (s.tables.markFinal keys)
  | .editedSince cutoff =>
    s.served (((s.tables.unseenSince cutoff.millis).mapM PollEdit.ofStamp).map (.edits ·, s.tables))
  | .markSeen edits => s.counted (s.tables.markSeen (edits.map (·.toStamp)))
  | .persist keys => s.counted (s.tables.savePending keys)
  | .takePersisted guild =>
    let (keys, tables) := s.tables.takePending guild
    s.served (.ok (.keys keys, tables))
  | .clearCaches => (.ok .done, s)

end DirectStore

/-- What may happen to a store. Those who wait in line may give up; caches may lose entries at any
time. -/
inductive StoreEvent where
  | acquire (guild : GuildId)
  | acquireUnless (cancelled : Bool) (guild : GuildId)
  | wait (guild : GuildId)
  | giveUp (h : Handle)
  | release (h : Handle)
  | request (now : Instant) (r : Request)
  | evict (settings : List GuildId) (polls : List PollKey) (pollIds : List GuildId)

inductive StoreReply where
  | handle (result : Except StoreError Handle)
  | answer (result : Except StoreError Answer)
  | silent

def StoreEvent.isCacheOnly : StoreEvent → Bool
  | .request _ .clearCaches => true
  | .evict .. => true
  | _ => false

def Caches.without (c : Caches) (settings : List GuildId) (polls : List PollKey)
    (pollIds : List GuildId) : Caches :=
  ⟨c.settings.filter (·.1 ∉ settings), c.polls.filter (·.1 ∉ polls),
    c.pollIds.filter (·.1 ∉ pollIds)⟩

namespace Store

def react (s : Store) : StoreEvent → StoreReply × Store
  | .acquire guild =>
    let (result, s) := (acquire guild).outcome s
    (.handle result, s)
  | .acquireUnless cancelled guild =>
    let (result, s) := (acquireUnless cancelled guild).outcome s
    (.handle result, s)
  | .wait guild =>
    let (h, locks) := s.locks.request guild
    (.handle (.ok h), { s with locks })
  | .giveUp h => (.silent, { s with locks := s.locks.giveUp h })
  | .release h => (.silent, { s with locks := s.locks.release h })
  | .request now r =>
    let (result, s) := (answer now r).outcome s
    (.answer result, s)
  | .evict settings polls pollIds =>
    (.silent, { s with caches := s.caches.without settings polls pollIds })

def after (s : Store) (events : List StoreEvent) : Store :=
  events.foldl (fun s e => (s.react e).2) s

def replies (s : Store) : List StoreEvent → List StoreReply
  | [] => []
  | e :: rest => (s.react e).1 :: (s.react e).2.replies rest

end Store

namespace DirectStore

def react (s : DirectStore) : StoreEvent → StoreReply × DirectStore
  | .acquire guild =>
    let (result, locks) := s.locks.acquire guild
    (.handle (result.mapError .ofLock), { s with locks })
  | .acquireUnless cancelled guild =>
    let (result, locks) := s.locks.acquireUnless cancelled guild
    (.handle (result.mapError .ofLock), { s with locks })
  | .wait guild =>
    let (h, locks) := s.locks.request guild
    (.handle (.ok h), { s with locks })
  | .giveUp h => (.silent, { s with locks := s.locks.giveUp h })
  | .release h => (.silent, { s with locks := s.locks.release h })
  | .request now r =>
    let (result, s) := s.answer now r
    (.answer result, s)
  | .evict .. => (.silent, s)

def after (s : DirectStore) (events : List StoreEvent) : DirectStore :=
  events.foldl (fun s e => (s.react e).2) s

def replies (s : DirectStore) : List StoreEvent → List StoreReply
  | [] => []
  | e :: rest => (s.react e).1 :: (s.react e).2.replies rest

end DirectStore

end PollKeeper
