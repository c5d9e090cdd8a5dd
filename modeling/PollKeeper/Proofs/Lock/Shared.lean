import Mathlib.Logic.Function.Basic
import PollKeeper.Proofs.Lock.Pruning

/-!
# Shared lock objects

The lock of a guild is an object to which the table of locks refers, and every task that waits at it or holds a
handle of it. To forget idle locks is to take out of the table the objects to which nothing else refers. Were an
object forgotten that a task still refers to, the next task of its guild would get another one, and the two would
not see each other. They always do: seen guild by guild, shared objects are the locks that take turns.
-/

namespace PollKeeper

namespace Keyed

variable {κ α β : Type} {m : Keyed κ α} {k : κ} {a : α} {f : α → β}

theorem ext_entries {m m' : Keyed κ α} (h : m.entries = m'.entries) : m = m' := by
  cases m
  cases m'
  cases h
  rfl

def map (f : α → β) (m : Keyed κ α) : Keyed κ β :=
  ⟨m.entries.map fun e => (e.1, f e.2), by rw [List.map_map]; exact m.distinct⟩

theorem keys_map (f : α → β) (m : Keyed κ α) : (m.map f).keys = m.keys := List.map_map

variable [DecidableEq κ]

theorem get?_map (f : α → β) (m : Keyed κ α) (k : κ) : (m.map f).get? k = (m.get? k).map f := by
  cases hget : m.get? k with
  | none =>
    rw [Option.map_none, get?, List.lookup_eq_none_iff]
    intro e he
    obtain ⟨old, hold, rfl⟩ := List.mem_map.mp he
    exact List.lookup_eq_none_iff.mp hget old hold
  | some a => exact get?_eq_some_iff.mpr (List.mem_map.mpr ⟨(k, a), get?_eq_some_iff.mp hget, rfl⟩)

theorem entries_set_of_not_mem (h : k ∉ m.keys) (a : α) : (m.set k a).entries = m.entries ++ [(k, a)] := by
  rw [set, dif_neg h]

theorem entries_set_of_mem (h : k ∈ m.keys) (a : α) : (m.set k a).entries = replaceIn k a m.entries := by
  rw [set, dif_pos h]

theorem map_set_of_not_mem (h : k ∉ m.keys) (f : α → β) (a : α) :
    (m.set k a).map f = (m.map f).set k (f a) := by
  refine ext_entries ?_
  rw [entries_set_of_not_mem (by rwa [keys_map])]
  exact (congrArg (List.map fun e => (e.1, f e.2)) (entries_set_of_not_mem h a)).trans List.map_append

theorem set_set (m : Keyed κ α) (k : κ) (a b : α) : (m.set k a).set k b = m.set k b := by
  refine ext_entries ?_
  by_cases h : k ∈ m.keys
  · have hkeys : k ∈ (m.set k a).keys := by rwa [keys, entries_set_of_mem h, map_fst_replaceIn]
    rw [entries_set_of_mem hkeys, entries_set_of_mem h, entries_set_of_mem h, replaceIn, replaceIn,
      List.map_map]
    refine List.map_congr_left fun e _ => ?_
    by_cases he : e.1 = k <;> simp [he]
  · have hkeys : k ∈ (m.set k a).keys := by simp [keys, entries_set_of_not_mem h]
    have hold : ∀ e ∈ m.entries, e.1 ≠ k := fun e he hk => h (hk ▸ List.mem_map_of_mem he)
    rw [entries_set_of_mem hkeys, entries_set_of_not_mem h, entries_set_of_not_mem h, replaceIn,
      List.map_append, List.map_congr_left fun e he => if_neg (hold e he), List.map_id']
    simp

/-- If no other entry has the value of an entry, then to change what stands for the value is to change the
entry. -/
theorem map_update [DecidableEq α] (hvalues : (m.entries.map (·.2)).Nodup) (hget : m.get? k = some a)
    (f : α → β) (b : β) : m.map (Function.update f a b) = (m.map f).set k b := by
  have hmem := get?_eq_some_iff.mp hget
  have hkey : k ∈ (m.map f).keys := by
    rw [keys_map]
    exact List.mem_map_of_mem hmem
  refine ext_entries ?_
  rw [entries_set_of_mem hkey, map, map, replaceIn, List.map_map]
  refine List.map_congr_left fun e he => ?_
  have hiff : e.2 = a ↔ e.1 = k := by
    constructor
    · intro ha
      rw [List.inj_on_of_nodup_map hvalues he hmem ha]
    · intro hk
      rw [List.inj_on_of_nodup_map m.distinct he hmem hk]
  by_cases hk : e.1 = k
  · simp [hk, hiff.mpr hk]
  · simp [hk, mt hiff.mp hk]

end Keyed

theorem Locks.setLock_setLock (l : Locks) (guild : GuildId) (first last : Lock) :
    (l.setLock guild first).setLock guild last = l.setLock guild last :=
  congrArg (Locks.mk · l.issued) (Keyed.set_set _ guild first last)

/-- The lock objects, and which of them the table has for each guild. -/
structure SharedLocks where
  objects : Nat → Lock
  made : Nat
  table : Keyed GuildId Nat
  issued : Nat

namespace SharedLocks

def fresh : SharedLocks := ⟨fun _ => .free, 0, .empty, 0⟩

def setObject (l : SharedLocks) (id : Nat) (lock : Lock) : SharedLocks :=
  { l with objects := Function.update l.objects id lock }

def withObject (l : SharedLocks) (guild : GuildId) : SharedLocks :=
  { l.setObject l.made .free with made := l.made + 1, table := l.table.set guild l.made }

def objectFor (l : SharedLocks) (guild : GuildId) : Nat × SharedLocks :=
  match l.table.get? guild with
  | some id => (id, l)
  | none => (l.made, l.withObject guild)

def request (l : SharedLocks) (guild : GuildId) : Handle × Nat × SharedLocks :=
  let (id, l) := l.objectFor guild
  (⟨guild, l.issued⟩, id, { l.setObject id ((l.objects id).join l.issued) with issued := l.issued + 1 })

def leave (l : SharedLocks) (id ticket : Nat) : SharedLocks :=
  l.setObject id ((l.objects id).leave ticket)

def release (l : SharedLocks) (id ticket : Nat) : SharedLocks :=
  l.setObject id ((l.objects id).release ticket)

/-- The locks as they are seen guild by guild. -/
def view (l : SharedLocks) : Locks := ⟨l.table.map l.objects, l.issued⟩

/-- Every object in the table was made, and stands there for one guild. -/
structure Tidy (l : SharedLocks) : Prop where
  made : ∀ e ∈ l.table.entries, e.2 < l.made
  single : (l.table.entries.map (·.2)).Nodup

variable {l : SharedLocks} {guild : GuildId} {id ticket : Nat}

private theorem tidy_fresh : fresh.Tidy := ⟨nofun, .nil⟩

theorem lockOf_view (hget : l.table.get? guild = some id) : l.view.lockOf guild = l.objects id := by
  rw [Locks.lockOf, view, Keyed.get?_map, hget]
  rfl

theorem isHeld_view (hget : l.table.get? guild = some id) :
    l.view.isHeld ⟨guild, ticket⟩ = decide ((l.objects id).holder = some ticket) := by
  rw [Locks.isHeld, lockOf_view hget]

namespace Tidy

theorem setObject (hl : l.Tidy) (id : Nat) (lock : Lock) : (l.setObject id lock).Tidy :=
  ⟨hl.made, hl.single⟩

theorem leave (hl : l.Tidy) (id ticket : Nat) : (l.leave id ticket).Tidy := hl.setObject _ _

theorem release (hl : l.Tidy) (id ticket : Nat) : (l.release id ticket).Tidy := hl.setObject _ _

theorem view_setObject (hl : l.Tidy) (hget : l.table.get? guild = some id) (lock : Lock) :
    (l.setObject id lock).view = l.view.setLock guild lock :=
  congrArg (Locks.mk · l.issued) (Keyed.map_update hl.single hget l.objects lock)

theorem view_leave (hl : l.Tidy) (hget : l.table.get? guild = some id) (ticket : Nat) :
    (l.leave id ticket).view = l.view.giveUp ⟨guild, ticket⟩ := by
  rw [SharedLocks.leave, Locks.giveUp]
  split
  · rw [hl.view_setObject hget, lockOf_view hget]
  · next hout =>
    have hnew : ticket ∉ (l.objects id).waiters := by
      simpa [Locks.isWaiting, lockOf_view hget] using hout
    rw [Lock.leave, List.erase_of_not_mem hnew, SharedLocks.setObject, Function.update_eq_self]

theorem view_release (hl : l.Tidy) (hget : l.table.get? guild = some id) (ticket : Nat) :
    (l.release id ticket).view = l.view.release ⟨guild, ticket⟩ := by
  rw [SharedLocks.release, Locks.release, isHeld_view hget]
  split
  · rw [hl.view_setObject hget, lockOf_view hget]
  · next hout =>
    have hsame : (l.objects id).release ticket = l.objects id := if_neg (by simpa using hout)
    rw [hsame, SharedLocks.setObject, Function.update_eq_self]

private theorem withObject (hl : l.Tidy) (hnew : guild ∉ l.table.keys) : (l.withObject guild).Tidy := by
  have hentries : (l.withObject guild).table.entries = l.table.entries ++ [(guild, l.made)] :=
    Keyed.entries_set_of_not_mem hnew l.made
  constructor
  · rw [hentries]
    intro e he
    rcases List.mem_append.mp he with hold | hlast
    · exact Nat.lt_succ_of_lt (hl.made e hold)
    · rw [List.mem_singleton.mp hlast]
      exact Nat.lt_succ_self _
  · rw [hentries, List.map_append, List.nodup_append]
    refine ⟨hl.single, by simp, ?_⟩
    intro object hobject last hlast
    obtain ⟨e, he, rfl⟩ := List.mem_map.mp hobject
    rw [List.map_singleton, List.mem_singleton] at hlast
    rw [hlast]
    exact Nat.ne_of_lt (hl.made e he)

private theorem view_withObject (hl : l.Tidy) (hnew : guild ∉ l.table.keys) :
    (l.withObject guild).view = l.view.setLock guild .free := by
  -- No object in the table is the new one.
  have hold : l.table.map (l.withObject guild).objects = l.table.map l.objects := by
    refine Keyed.ext_entries (List.map_congr_left fun e he => congrArg (e.1, ·) ?_)
    exact Function.update_of_ne (Nat.ne_of_lt (hl.made e he)) _ _
  have hmade : (l.withObject guild).objects l.made = .free := Function.update_self _ _ _
  refine congrArg (Locks.mk · l.issued) ((Keyed.map_set_of_not_mem hnew _ _).trans ?_)
  rw [hold, hmade]
  rfl

/-- A guild that comes back gets a free lock object, which is how its lock has looked in the meantime. -/
theorem objectFor (hl : l.Tidy) (guild : GuildId) :
    (l.objectFor guild).2.Tidy ∧ (l.objectFor guild).2.issued = l.issued ∧
      (l.objectFor guild).2.table.get? guild = some (l.objectFor guild).1 ∧
      (l.objectFor guild).2.view.lockOf guild = l.view.lockOf guild ∧
      (∀ lock, (l.objectFor guild).2.view.setLock guild lock = l.view.setLock guild lock) ∧
      ∀ other object, l.table.get? other = some object →
        (l.objectFor guild).2.table.get? other = some object := by
  unfold SharedLocks.objectFor
  cases hget : l.table.get? guild with
  | some id => exact ⟨hl, rfl, hget, rfl, fun _ => rfl, fun _ _ h => h⟩
  | none =>
    have hnew : guild ∉ l.table.keys := by
      intro hmem
      obtain ⟨e, he, rfl⟩ := List.mem_map.mp hmem
      cases hget.symm.trans (Keyed.get?_eq_some_iff.mpr he)
    have hfree : l.view.lockOf guild = .free := by
      rw [Locks.lockOf, view, Keyed.get?_map, hget]
      rfl
    have hview := hl.view_withObject hnew
    refine ⟨hl.withObject hnew, rfl, by simp [SharedLocks.withObject], ?_, fun lock => ?_,
      fun other object hother => ?_⟩
    · rw [hview, Locks.lockOf_setLock, if_pos rfl, hfree]
    · rw [hview, Locks.setLock_setLock]
    · have hne : other ≠ guild := by
        rintro rfl
        cases hget.symm.trans hother
      simpa [SharedLocks.withObject, hne] using hother

theorem request {h : Handle} {l' : SharedLocks} (hl : l.Tidy) (hr : l.request guild = (h, id, l')) :
    l.view.request guild = (h, l'.view) ∧ l'.Tidy ∧ h.guild = guild ∧ l'.table.get? guild = some id ∧
      ∀ other object, l.table.get? other = some object → l'.table.get? other = some object := by
  obtain ⟨htidy, hissued, hget, hlock, hview, hkeeps⟩ := hl.objectFor guild
  have hset := htidy.view_setObject hget ((l.view.lockOf guild).join l.issued)
  rw [hview] at hset
  rw [lockOf_view hget] at hlock
  simp only [SharedLocks.request, hlock, hissued, Prod.mk.injEq] at hr
  obtain ⟨rfl, rfl, rfl⟩ := hr
  refine ⟨Prod.ext rfl ?_, ⟨htidy.made, htidy.single⟩, rfl, hget, hkeeps⟩
  exact congrArg (fun locks => { locks with issued := l.issued + 1 : Locks }) hset.symm

/-- An attempt at the lock object of a guild ends as one at the lock of the guild. -/
theorem acquire {h : Handle} {l' : SharedLocks} (hl : l.Tidy) (hr : l.request guild = (h, id, l')) :
    l.view.acquire guild =
      if (l'.objects id).holder = some h.ticket then (.ok h, l'.view)
      else (.error (.timedOut guild), (l'.leave id h.ticket).view) := by
  obtain ⟨hview, htidy, rfl, hget, -⟩ := hl.request hr
  rw [Locks.acquire, hview, htidy.view_leave hget]
  simp only [isHeld_view hget, decide_eq_true_eq]

end Tidy
end SharedLocks

/-- A task, and the lock object to which it refers. -/
structure Sharer where
  task : LockTask
  object : Nat

structure SharedTurns where
  locks : SharedLocks
  sharers : List Sharer

namespace SharedTurns

def fresh : SharedTurns := ⟨.fresh, []⟩

/-- How many refer to a lock object: tasks, and the table. -/
def references (s : SharedTurns) (id : Nat) : Nat :=
  s.sharers.countP (·.object = id) + s.locks.table.entries.countP (·.2 = id)

/-- Takes the lock objects out of the table to which nothing else refers, and counts them. -/
def pruneIdle (s : SharedTurns) : Nat × SharedTurns :=
  let kept := s.locks.table.filter fun e => 1 < s.references e.2
  (s.locks.table.size - kept.size, { s with locks := { s.locks with table := kept } })

def without (s : SharedTurns) (h : Handle) (locks : SharedLocks) : SharedTurns :=
  ⟨locks, s.sharers.filter (·.task.handle ≠ h)⟩

def step (s : SharedTurns) : TurnEvent → SharedTurns
  | .ask guild =>
    let (h, id, locks) := s.locks.request guild
    ⟨locks, s.sharers ++ [⟨⟨h, false⟩, id⟩]⟩
  | .acquire true _ => s
  | .acquire false guild =>
    let (h, id, locks) := s.locks.request guild
    if (locks.objects id).holder = some h.ticket then ⟨locks, s.sharers ++ [⟨⟨h, true⟩, id⟩]⟩
    else { s with locks := locks.leave id h.ticket }
  | .proceed h =>
    { s with sharers := s.sharers.map fun u =>
        { u with task := { u.task with holds := u.task.holds ||
            (u.task.handle = h && (s.locks.objects u.object).holder = some h.ticket) } } }
  | .leave h =>
    match s.sharers.find? (·.task = ⟨h, false⟩) with
    | some u => s.without h ((s.locks.leave u.object h.ticket).release u.object h.ticket)
    | none => s
  | .release h =>
    match s.sharers.find? (·.task = ⟨h, true⟩) with
    | some u => s.without h (s.locks.release u.object h.ticket)
    | none => s
  | .prune => s.pruneIdle.2

def after (s : SharedTurns) (events : List TurnEvent) : SharedTurns := events.foldl step s

/-- The tasks before the locks as they are seen guild by guild. -/
def view (s : SharedTurns) : Turns := ⟨s.locks.view, s.sharers.map (·.task)⟩

def reply (s : SharedTurns) : TurnEvent → TurnReply
  | .ask guild => .waits (s.locks.request guild).1
  | .acquire true guild => .failed (.interrupted guild)
  | .acquire false guild =>
    let (h, id, locks) := s.locks.request guild
    if (locks.objects id).holder = some h.ticket then .obtained h else .failed (.timedOut guild)
  | .proceed h => .flag (⟨h, true⟩ ∈ (s.step (.proceed h)).sharers.map (·.task))
  | .leave h => .flag (⟨h, false⟩ ∈ s.sharers.map (·.task))
  | .release h => .flag (⟨h, true⟩ ∈ s.sharers.map (·.task))
  | .prune => .count s.pruneIdle.1

def replies (s : SharedTurns) : List TurnEvent → List (TurnEvent × TurnReply)
  | [] => []
  | e :: rest => (e, s.reply e) :: (s.step e).replies rest

/-- Every task refers to the lock object that stands for its guild. -/
structure Sharing (s : SharedTurns) : Prop where
  tidy : s.locks.Tidy
  current : ∀ u ∈ s.sharers, s.locks.table.get? u.task.handle.guild = some u.object
  inOrder : s.view.InOrder

private theorem sharing_fresh : fresh.Sharing := ⟨SharedLocks.tidy_fresh, nofun, Turns.inOrder_fresh⟩

variable {s : SharedTurns}

theorem find?_cases (s : SharedTurns) (t : LockTask) :
    (∃ u ∈ s.sharers, s.sharers.find? (·.task = t) = some u ∧ u.task = t ∧ t ∈ s.view.tasks) ∨
      s.sharers.find? (·.task = t) = none ∧ t ∉ s.view.tasks := by
  cases hfind : s.sharers.find? (·.task = t) with
  | none =>
    refine .inr ⟨rfl, fun hmem => ?_⟩
    obtain ⟨u, hu, hut⟩ := List.mem_map.mp hmem
    exact List.find?_eq_none.mp hfind u hu (decide_eq_true hut)
  | some u =>
    have hu := List.mem_of_find?_eq_some hfind
    have hut : u.task = t := by simpa using List.find?_some hfind
    exact .inl ⟨u, hu, rfl, hut, List.mem_map.mpr ⟨u, hu, hut⟩⟩

private theorem view_without (s : SharedTurns) (h : Handle) (locks : SharedLocks) :
    (s.without h locks).view = ⟨locks.view, s.view.tasks.filter (·.handle ≠ h)⟩ := by
  simp only [view, without, List.filter_map]
  rfl

namespace Sharing

/-- The tasks at the lock object of a guild are those of the guild. -/
theorem object_eq_iff (hs : s.Sharing) {u : Sharer} (hu : u ∈ s.sharers) {guild : GuildId} {id : Nat}
    (hget : s.locks.table.get? guild = some id) : u.object = id ↔ u.task.handle.guild = guild := by
  have hcurrent := hs.current u hu
  constructor
  · intro hid
    rw [hid, Keyed.get?_eq_some_iff] at hcurrent
    have hsame := List.inj_on_of_nodup_map hs.tidy.single hcurrent (Keyed.get?_eq_some_iff.mp hget) rfl
    exact congrArg Prod.fst hsame
  · intro hguild
    rw [hguild, hget] at hcurrent
    exact (Option.some.inj hcurrent).symm

/-- Besides the table, just those refer to a lock object who hold it or wait for it. -/
theorem references_eq (hs : s.Sharing) {guild : GuildId} {id : Nat}
    (hget : s.locks.table.get? guild = some id) : s.references id = (s.locks.objects id).references + 1 := by
  have htasks : s.sharers.countP (·.object = id) = (s.view.tasksOf guild).length := by
    rw [Turns.tasksOf, view, List.filter_map, List.length_map, ← List.countP_eq_length_filter]
    exact List.countP_congr fun u hu => by simpa using hs.object_eq_iff hu hget
  have htable : s.locks.table.entries.countP (·.2 = id) = 1 := by
    have hcount := List.count_eq_one_of_mem hs.tidy.single
      (List.mem_map_of_mem (Keyed.get?_eq_some_iff.mp hget))
    rw [List.count, List.countP_map] at hcount
    exact (List.countP_congr fun e _ => by simp).trans hcount
  have htickets := congrArg List.length (hs.inOrder.tickets guild)
  have hlock : s.view.locks.lockOf guild = s.locks.objects id := SharedLocks.lockOf_view hget
  rw [hlock, Lock.tickets, List.length_append, List.length_map] at htickets
  rw [references, htasks, htable, ← htickets, Lock.references]

end Sharing

/-- A step of shared lock objects is one of the locks that take turns, with the same reply. -/
structure Follows (s : SharedTurns) (e : TurnEvent) : Prop where
  view : (s.step e).view = s.view.step e
  reply : s.reply e = s.view.reply e
  tidy : (s.step e).locks.Tidy
  current : ∀ u ∈ (s.step e).sharers, (s.step e).locks.table.get? u.task.handle.guild = some u.object

private theorem Follows.sharing {e : TurnEvent} (h : s.Follows e) (hs : s.Sharing) : (s.step e).Sharing :=
  ⟨h.tidy, h.current, h.view ▸ hs.inOrder.step e⟩

namespace Sharing

theorem stays (hs : s.Sharing) {e : TurnEvent} (hstep : s.step e = s) (hview : s.view.step e = s.view)
    (hreply : s.reply e = s.view.reply e) : s.Follows e := by
  refine ⟨by rw [hstep, hview], hreply, ?_, ?_⟩
  · rw [hstep]
    exact hs.tidy
  · rw [hstep]
    exact hs.current

theorem comes (hs : s.Sharing) {e : TurnEvent} {task : LockTask} {id : Nat} {locks : SharedLocks}
    (hstep : s.step e = ⟨locks, s.sharers ++ [⟨task, id⟩]⟩)
    (hview : s.view.step e = ⟨locks.view, s.view.tasks ++ [task]⟩) (hreply : s.reply e = s.view.reply e)
    (htidy : locks.Tidy) (hget : locks.table.get? task.handle.guild = some id)
    (hkeeps : ∀ guild object, s.locks.table.get? guild = some object → locks.table.get? guild = some object) :
    s.Follows e := by
  refine ⟨?_, hreply, ?_, ?_⟩
  · rw [hstep, hview]
    simp only [SharedTurns.view, List.map_append, List.map_singleton]
  · rw [hstep]
    exact htidy
  · rw [hstep]
    intro u hu
    rcases List.mem_append.mp hu with hold | hnew
    · exact hkeeps _ _ (hs.current u hold)
    · rw [List.mem_singleton.mp hnew]
      exact hget

theorem goes (hs : s.Sharing) {e : TurnEvent} {h : Handle} {locks : SharedLocks}
    (hstep : s.step e = s.without h locks)
    (hview : s.view.step e = ⟨locks.view, s.view.tasks.filter (·.handle ≠ h)⟩)
    (hreply : s.reply e = s.view.reply e) (htidy : locks.Tidy) (htable : locks.table = s.locks.table) :
    s.Follows e := by
  refine ⟨?_, hreply, ?_, ?_⟩
  · rw [hstep, hview, view_without]
  · rw [hstep]
    exact htidy
  · rw [hstep]
    intro u hu
    have hcurrent := hs.current u (List.mem_filter.mp hu).1
    rwa [← htable] at hcurrent

private theorem ask (hs : s.Sharing) (guild : GuildId) : s.Follows (.ask guild) := by
  rcases hr : s.locks.request guild with ⟨h, id, locks⟩
  obtain ⟨hview, htidy, rfl, hget, hkeeps⟩ := hs.tidy.request hr
  have hstep : s.step (.ask h.guild) = ⟨locks, s.sharers ++ [⟨⟨h, false⟩, id⟩]⟩ := by
    simp only [SharedTurns.step, hr]
  have hrequest : s.view.locks.request h.guild = (h, locks.view) := hview
  refine hs.comes hstep ?_ ?_ htidy hget hkeeps
  · simp only [Turns.step, hrequest]
  · simp only [SharedTurns.reply, Turns.reply, hr, hrequest]

theorem acquire (hs : s.Sharing) (cancelled : Bool) (guild : GuildId) : s.Follows (.acquire cancelled guild) := by
  cases cancelled with
  | true => exact hs.stays rfl rfl rfl
  | false =>
    rcases hr : s.locks.request guild with ⟨h, id, locks⟩
    have hacquire : s.view.locks.acquireUnless false guild = _ := hs.tidy.acquire hr
    obtain ⟨-, htidy, rfl, hget, hkeeps⟩ := hs.tidy.request hr
    by_cases hgranted : (locks.objects id).holder = some h.ticket
    · rw [if_pos hgranted] at hacquire
      have hstep : s.step (.acquire false h.guild) = ⟨locks, s.sharers ++ [⟨⟨h, true⟩, id⟩]⟩ := by
        simp only [SharedTurns.step, hr, if_pos hgranted]
      refine hs.comes hstep ?_ ?_ htidy hget hkeeps
      · simp only [Turns.step, hacquire]
      · simp only [SharedTurns.reply, Turns.reply, hr, hacquire, if_pos hgranted]
    · rw [if_neg hgranted] at hacquire
      have hstep : s.step (.acquire false h.guild) = ⟨locks.leave id h.ticket, s.sharers⟩ := by
        simp only [SharedTurns.step, hr, if_neg hgranted]
      refine ⟨?_, ?_, ?_, ?_⟩
      · simp only [hstep, Turns.step, hacquire]
        rfl
      · simp only [SharedTurns.reply, Turns.reply, hr, hacquire, if_neg hgranted]
      · rw [hstep]
        exact htidy.leave _ _
      · rw [hstep]
        exact fun u hu => hkeeps _ _ (hs.current u hu)

private theorem proceed (hs : s.Sharing) (h : Handle) : s.Follows (.proceed h) := by
  have hview : (s.step (.proceed h)).view = s.view.step (.proceed h) := by
    simp only [SharedTurns.step, SharedTurns.view, Turns.step, List.map_map]
    refine congrArg (Turns.mk s.locks.view) (List.map_congr_left fun u hu => ?_)
    have hturn : u.task.handle = h →
        s.locks.view.isHeld h = decide ((s.locks.objects u.object).holder = some h.ticket) := by
      rintro rfl
      exact SharedLocks.isHeld_view (hs.current u hu)
    by_cases hh : u.task.handle = h
    · simp [hh, hturn hh]
    · simp [hh]
  refine ⟨hview, ?_, hs.tidy, ?_⟩
  · exact congrArg (fun t : Turns => TurnReply.flag (⟨h, true⟩ ∈ t.tasks)) hview
  · intro u hu
    obtain ⟨old, hold, rfl⟩ := List.mem_map.mp hu
    exact hs.current old hold

theorem leave (hs : s.Sharing) (h : Handle) : s.Follows (.leave h) := by
  rcases s.find?_cases ⟨h, false⟩ with ⟨u, hu, hfind, htask, hmem⟩ | ⟨hfind, hout⟩
  · have hget : s.locks.table.get? h.guild = some u.object := by simpa [htask] using hs.current u hu
    have htidy := hs.tidy.leave u.object h.ticket
    have hstep : s.step (.leave h) =
        s.without h ((s.locks.leave u.object h.ticket).release u.object h.ticket) := by
      simp only [SharedTurns.step, hfind]
    refine hs.goes hstep ?_ rfl (htidy.release u.object h.ticket) rfl
    rw [htidy.view_release hget, hs.tidy.view_leave hget, Turns.step, if_pos hmem]
    rfl
  · exact hs.stays (by simp only [SharedTurns.step, hfind]) (if_neg hout) rfl

theorem release (hs : s.Sharing) (h : Handle) : s.Follows (.release h) := by
  rcases s.find?_cases ⟨h, true⟩ with ⟨u, hu, hfind, htask, hmem⟩ | ⟨hfind, hout⟩
  · have hget : s.locks.table.get? h.guild = some u.object := by simpa [htask] using hs.current u hu
    have hwaits : ⟨h, false⟩ ∉ s.view.tasks := fun hwaits => by
      cases hs.inOrder.eq_of_ticket hmem hwaits rfl
    have hstep : s.step (.release h) = s.without h (s.locks.release u.object h.ticket) := by
      simp only [SharedTurns.step, hfind]
    refine hs.goes hstep ?_ rfl (hs.tidy.release u.object h.ticket) rfl
    rw [hs.tidy.view_release hget, Turns.step, if_neg hwaits]
    rfl
  · have hheld : h ∉ s.view.holders h.guild := fun hh => hout (Turns.mem_holders.mp hh).1
    exact hs.stays (by simp only [SharedTurns.step, hfind]) (hs.inOrder.release_eq_self hheld) rfl

/-- A lock object that anything but the table refers to is not idle, and the other way round. -/
theorem prune (hs : s.Sharing) : s.Follows .prune := by
  have hkept : (s.step .prune).locks.table.map s.locks.objects = s.view.locks.pruneIdle.2.entries := by
    let look (e : GuildId × Nat) : GuildId × Lock := (e.1, s.locks.objects e.2)
    refine Keyed.ext_entries (Eq.trans (congrArg (List.map look) ?_) List.filter_map.symm)
    refine List.filter_congr fun e he => decide_eq_decide.mpr ?_
    have hreferences := hs.references_eq (Keyed.get?_eq_some_iff.mpr he)
    show 1 < s.references e.2 ↔ (s.locks.objects e.2).references ≠ 0
    omega
  have hview : (s.step .prune).view = s.view.step .prune := by
    exact congrArg (fun entries => (⟨⟨entries, s.locks.issued⟩, s.view.tasks⟩ : Turns)) hkept
  refine ⟨hview, ?_, ?_, fun u hu => ?_⟩
  · have hsize (m : Keyed GuildId Nat) : (m.map s.locks.objects).size = m.size := List.length_map _
    refine congrArg TurnReply.count (congrArg₂ (· - ·) (hsize _).symm ?_)
    exact (hsize _).symm.trans (congrArg Keyed.size hkept)
  · exact ⟨fun e he => hs.tidy.made e (List.mem_filter.mp he).1,
      hs.tidy.single.sublist (List.filter_sublist.map _)⟩
  · have hentry := Keyed.get?_eq_some_iff.mp (hs.current u hu)
    refine Keyed.get?_eq_some_iff.mpr (List.mem_filter.mpr ⟨hentry, decide_eq_true ?_⟩)
    have htask : 0 < s.sharers.countP (·.object = u.object) := List.countP_pos_iff.mpr ⟨u, hu, by simp⟩
    have htable : 0 < s.locks.table.entries.countP (·.2 = u.object) :=
      List.countP_pos_iff.mpr ⟨_, hentry, by simp⟩
    simp only [references]
    omega

private theorem follows (hs : s.Sharing) (e : TurnEvent) : s.Follows e := by
  cases e with
  | ask guild => exact hs.ask guild
  | acquire cancelled guild => exact hs.acquire cancelled guild
  | proceed h => exact hs.proceed h
  | leave h => exact hs.leave h
  | release h => exact hs.release h
  | prune => exact hs.prune

private theorem after (hs : s.Sharing) (events : List TurnEvent) :
    (s.after events).view = s.view.after events ∧ s.replies events = s.view.replies events := by
  induction events generalizing s with
  | nil => exact ⟨rfl, rfl⟩
  | cons e rest ih =>
    have he := hs.follows e
    obtain ⟨hview, hreplies⟩ := ih (he.sharing hs)
    rw [he.view] at hview hreplies
    exact ⟨hview, congrArg₂ (fun reply later => (e, reply) :: later) he.reply hreplies⟩

end Sharing
end SharedTurns

namespace Turns

/-- To forget the idle locks takes away just the entries of the guilds whose lock nobody holds or waits for, and
counts them; then no other guilds have one than those where somebody does. Runs that differ only in their
prunings tell every task the same, and have the same tasks before locks that look the same. Whether locks are
shared objects that go when nothing but the table refers to them, or locks that go when they are idle, comes to
the same in every run. -/
theorem pruning_exact_and_unseen (events : List TurnEvent) :
    let s := fresh.after events
    let pruned := s.locks.pruneIdle
    pruned.2.entries.entries = s.locks.entries.entries.filter (fun e => ¬ s.IsIdle e.1) ∧
      pruned.1 = s.locks.entries.entries.countP (fun e => s.IsIdle e.1) ∧
      (∀ guild, guild ∈ pruned.2.entries.keys ↔ ¬ s.IsIdle guild) ∧
      (∀ others : List TurnEvent, others.filter (· ≠ .prune) = events.filter (· ≠ .prune) →
        fresh.told others = fresh.told events ∧ (fresh.after others).tasks = s.tasks ∧
          ∀ guild, (fresh.after others).locks.lockOf guild = s.locks.lockOf guild) ∧
      (SharedTurns.fresh.after events).view = s ∧
      SharedTurns.fresh.replies events = fresh.replies events := by
  intro s pruned
  have hs : s.InOrder := inOrder_after events
  obtain ⟨hview, hreplies⟩ := SharedTurns.sharing_fresh.after events
  refine ⟨hs.entries_pruneIdle, hs.count_pruneIdle, fun guild => hs.mem_keys_pruneIdle, fun others hsame => ?_,
    hview, hreplies⟩
  obtain ⟨htold, halike⟩ := (Alike.refl fresh).after events
  obtain ⟨htold', halike'⟩ := (Alike.refl fresh).after others
  rw [hsame] at htold' halike'
  refine ⟨htold'.trans htold.symm, halike'.tasks.trans halike.tasks.symm, fun guild => ?_⟩
  exact (halike'.locks.lockOf guild).trans (halike.locks.lockOf guild).symm

/-- One guild gave its lock back, one holds it, and of the third one holds it and one waits. -/
def threeGuilds : List TurnEvent :=
  [.acquire false 1, .release ⟨1, 0⟩, .acquire false 2, .acquire false 3, .ask 3]

/-- With prunings in between guild 1 has lost its lock, and nobody was told anything else. -/
theorem pruning_exact_and_unseen_of_three :
    let s := fresh.after threeGuilds
    let others : List TurnEvent :=
      [.acquire false 1, .prune, .release ⟨1, 0⟩, .prune, .acquire false 2, .acquire false 3, .prune, .ask 3, .prune]
    others.filter (· ≠ .prune) = threeGuilds.filter (· ≠ .prune) ∧
      s.locks.pruneIdle.1 = 1 ∧ (∀ guild, guild ∈ s.locks.pruneIdle.2.entries.keys ↔ ¬ s.IsIdle guild) ∧
      s.locks.entries.keys = [1, 2, 3] ∧ (fresh.after others).locks.entries.keys = [2, 3] ∧
      fresh.told others = fresh.told threeGuilds ∧ (fresh.after others).tasks = s.tasks := by
  intro s others
  have hsame : others.filter (· ≠ .prune) = threeGuilds.filter (· ≠ .prune) := by decide
  obtain ⟨-, hcount, hkeys, hunseen, -⟩ := pruning_exact_and_unseen threeGuilds
  obtain ⟨htold, htasks, -⟩ := hunseen others hsame
  exact ⟨hsame, hcount.trans (by decide), hkeys, by decide, by decide, htold, htasks⟩

end Turns
end PollKeeper
