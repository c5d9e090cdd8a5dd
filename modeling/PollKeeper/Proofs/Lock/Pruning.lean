import PollKeeper.Proofs.Lock.Turns

/-!
# Forgotten locks

Idle locks are forgotten from time to time. What goes are the entries of the guilds whose lock nobody holds
or waits for, and no others. The tasks cannot tell: a guild that comes back finds a free lock, as it would have
found the old one free.
-/

namespace PollKeeper

theorem Keyed.get?_eq_some_iff {κ α : Type} [DecidableEq κ] {m : Keyed κ α} {k : κ} {v : α} :
    m.get? k = some v ↔ (k, v) ∈ m.entries := by
  rw [get?, List.lookup_eq_some_iff]
  constructor
  · rintro ⟨before, after, hsplit, -⟩
    simp [hsplit]
  · intro hmem
    obtain ⟨before, after, hsplit⟩ := List.append_of_mem hmem
    refine ⟨before, after, hsplit, fun e he => bne_iff_ne.mpr ?_⟩
    have hdistinct := m.distinct
    rw [hsplit, List.map_append, List.nodup_append] at hdistinct
    rintro rfl
    exact hdistinct.2.2 _ (List.mem_map_of_mem he) _ List.mem_cons_self rfl

namespace Locks

variable {l l' : Locks}

/-- Two states of the locks that differ at most in the entries of free locks. -/
structure Alike (l l' : Locks) : Prop where
  issued : l'.issued = l.issued
  lockOf : ∀ guild, l'.lockOf guild = l.lockOf guild

namespace Alike

theorem refl (l : Locks) : l.Alike l := ⟨rfl, fun _ => rfl⟩

theorem isHeld (h : l.Alike l') (handle : Handle) : l'.isHeld handle = l.isHeld handle :=
  isHeld_congr (h.lockOf _)

private theorem pruneIdle (h : l.Alike l') : l.Alike l'.pruneIdle.2 :=
  ⟨h.issued, fun guild => (l'.lockOf_pruneIdle guild).trans (h.lockOf guild)⟩

theorem request (h : l.Alike l') (guild : GuildId) :
    (l'.request guild).1 = (l.request guild).1 ∧ (l.request guild).2.Alike (l'.request guild).2 := by
  refine ⟨congrArg (Handle.mk guild) h.issued, congrArg (· + 1) h.issued, fun other => ?_⟩
  rw [lockOf_request, lockOf_request, h.lockOf, h.lockOf, h.issued]

theorem giveUp (h : l.Alike l') (handle : Handle) : (l.giveUp handle).Alike (l'.giveUp handle) := by
  refine ⟨by rw [issued_giveUp, issued_giveUp, h.issued], fun other => ?_⟩
  rw [lockOf_giveUp, lockOf_giveUp, h.lockOf, h.lockOf]

private theorem release (h : l.Alike l') (handle : Handle) :
    (l.release handle).Alike (l'.release handle) := by
  refine ⟨by rw [issued_release, issued_release, h.issued], fun other => ?_⟩
  rw [lockOf_release, lockOf_release, h.lockOf, h.lockOf]

theorem acquireUnless (h : l.Alike l') (cancelled : Bool) (guild : GuildId) :
    (l'.acquireUnless cancelled guild).1 = (l.acquireUnless cancelled guild).1 ∧
      (l.acquireUnless cancelled guild).2.Alike (l'.acquireUnless cancelled guild).2 := by
  obtain ⟨hhandle, hrequest⟩ := h.request guild
  simp only [Locks.acquireUnless, Locks.acquire, hhandle, hrequest.isHeld]
  split
  · exact ⟨rfl, h⟩
  · split
    · exact ⟨rfl, hrequest⟩
    · exact ⟨rfl, hrequest.giveUp _⟩

end Alike
end Locks

inductive TurnReply where
  /-- The task waits for this handle. -/
  | waits (h : Handle)
  | obtained (h : Handle)
  | failed (e : LockFailure)
  /-- Whether a waiting task has its handle, a leaving one was in line, or a release gave something back. -/
  | flag (b : Bool)
  | count (n : Nat)
  deriving DecidableEq

namespace Turns

def reply (s : Turns) : TurnEvent → TurnReply
  | .ask guild => .waits (s.locks.request guild).1
  | .acquire cancelled guild =>
    match (s.locks.acquireUnless cancelled guild).1 with
    | .ok h => .obtained h
    | .error e => .failed e
  | .proceed h => .flag (⟨h, true⟩ ∈ (s.step (.proceed h)).tasks)
  | .leave h => .flag (⟨h, false⟩ ∈ s.tasks)
  | .release h => .flag (⟨h, true⟩ ∈ s.tasks)
  | .prune => .count s.locks.pruneIdle.1

/-- The events with their replies, the first event first. -/
def replies (s : Turns) : List TurnEvent → List (TurnEvent × TurnReply)
  | [] => []
  | e :: rest => (e, s.reply e) :: (s.step e).replies rest

/-- What the tasks are told in the course of some events. Of a pruning they are told nothing. -/
def told (s : Turns) (events : List TurnEvent) : List (TurnEvent × TurnReply) :=
  (s.replies events).filter (·.1 ≠ .prune)

/-- Nobody holds the lock of a guild or waits for it. -/
def IsIdle (s : Turns) (guild : GuildId) : Prop := s.holders guild = [] ∧ s.waiting guild = []

instance (s : Turns) (guild : GuildId) : Decidable (s.IsIdle guild) :=
  inferInstanceAs (Decidable (_ ∧ _))

variable {s s' : Turns}

namespace InOrder

theorem references_eq_zero_iff (hs : s.InOrder) (guild : GuildId) :
    (s.locks.lockOf guild).references = 0 ↔ s.IsIdle guild := by
  have htickets := congrArg List.length (hs.takeTurns guild).tickets
  rw [Lock.tickets, List.length_append, List.length_map, List.length_append] at htickets
  rw [Lock.references, htickets, Nat.add_eq_zero_iff, List.length_eq_zero_iff, List.length_eq_zero_iff, IsIdle]

theorem entries_pruneIdle (hs : s.InOrder) :
    s.locks.pruneIdle.2.entries.entries = s.locks.entries.entries.filter fun e => ¬ s.IsIdle e.1 := by
  refine List.filter_congr fun e he => decide_eq_decide.mpr ?_
  have hlock : s.locks.lockOf e.1 = e.2 := by
    rw [Locks.lockOf, Keyed.get?_eq_some_iff.mpr he, Option.getD_some]
  exact not_congr (hlock ▸ hs.references_eq_zero_iff e.1)

theorem count_pruneIdle (hs : s.InOrder) :
    s.locks.pruneIdle.1 = s.locks.entries.entries.countP fun e => s.IsIdle e.1 := by
  have hcount := List.length_eq_countP_add_countP (fun e : GuildId × Lock => decide (s.IsIdle e.1))
    (l := s.locks.entries.entries)
  have hkept : s.locks.pruneIdle.2.entries.size =
      s.locks.entries.entries.countP fun e => ¬ s.IsIdle e.1 := by
    rw [Keyed.size, hs.entries_pruneIdle, List.countP_eq_length_filter]
  have hpruned : s.locks.pruneIdle.1 = s.locks.entries.size - s.locks.pruneIdle.2.entries.size := rfl
  simp only [decide_eq_true_eq] at hcount
  rw [hpruned, hkept, Keyed.size]
  omega

theorem mem_keys_pruneIdle (hs : s.InOrder) {guild : GuildId} :
    guild ∈ s.locks.pruneIdle.2.entries.keys ↔ ¬ s.IsIdle guild := by
  rw [Keyed.keys, hs.entries_pruneIdle, List.mem_map]
  constructor
  · rintro ⟨e, he, rfl⟩
    simpa using (List.mem_filter.mp he).2
  · intro hbusy
    cases hget : s.locks.entries.get? guild with
    | none =>
      have hfree : s.locks.lockOf guild = .free := by rw [Locks.lockOf, hget, Option.getD_none]
      have hidle := hs.references_eq_zero_iff guild
      rw [hfree] at hidle
      exact absurd (hidle.mp rfl) hbusy
    | some lock =>
      exact ⟨(guild, lock), List.mem_filter.mpr ⟨Keyed.get?_eq_some_iff.mp hget, by simpa using hbusy⟩, rfl⟩

end InOrder

/-- The same tasks before locks that differ at most in the entries of free ones. -/
structure Alike (s s' : Turns) : Prop where
  tasks : s'.tasks = s.tasks
  locks : s.locks.Alike s'.locks

namespace Alike

theorem refl (s : Turns) : s.Alike s := ⟨rfl, .refl _⟩

private theorem prune (h : s.Alike s') : s.Alike (s'.step .prune) := ⟨h.tasks, h.locks.pruneIdle⟩

theorem step (h : s.Alike s') {e : TurnEvent} (he : e ≠ .prune) : (s.step e).Alike (s'.step e) := by
  obtain ⟨locks, tasks⟩ := s
  obtain ⟨locks', tasks'⟩ := s'
  obtain ⟨rfl, hlocks⟩ := h
  cases e with
  | ask guild =>
    obtain ⟨hhandle, hrequest⟩ := hlocks.request guild
    exact ⟨congrArg (fun h => tasks' ++ [⟨h, false⟩]) hhandle, hrequest⟩
  | acquire cancelled guild =>
    obtain ⟨hresult, hacquire⟩ := hlocks.acquireUnless cancelled guild
    simp only [Turns.step]
    rcases hl : locks.acquireUnless cancelled guild with ⟨_ | _, _⟩ <;>
      rcases hl' : locks'.acquireUnless cancelled guild with ⟨_ | _, _⟩ <;>
        rw [hl, hl'] at hresult hacquire <;> cases hresult
    · exact ⟨rfl, hacquire⟩
    · exact ⟨rfl, hacquire⟩
  | proceed h =>
    refine ⟨?_, hlocks⟩
    simp only [Turns.step, hlocks.isHeld]
  | leave h =>
    simp only [Turns.step]
    split
    · exact ⟨rfl, (hlocks.giveUp h).release h⟩
    · exact ⟨rfl, hlocks⟩
  | release h =>
    simp only [Turns.step]
    split
    · exact ⟨rfl, hlocks⟩
    · exact ⟨rfl, hlocks.release h⟩
  | prune => exact absurd rfl he

private theorem reply (h : s.Alike s') {e : TurnEvent} (he : e ≠ .prune) : s'.reply e = s.reply e := by
  cases e with
  | ask guild => exact congrArg TurnReply.waits (h.locks.request guild).1
  | acquire cancelled guild => simp only [Turns.reply, (h.locks.acquireUnless cancelled guild).1]
  | proceed handle => simp only [Turns.reply, (h.step he).tasks]
  | leave handle => simp only [Turns.reply, h.tasks]
  | release handle => simp only [Turns.reply, h.tasks]
  | prune => exact absurd rfl he

/-- A run differs from the run without its prunings in nothing that a task sees. -/
theorem after (h : s.Alike s') (events : List TurnEvent) :
    s'.told events = s.told (events.filter (· ≠ .prune)) ∧
      (s.after (events.filter (· ≠ .prune))).Alike (s'.after events) := by
  induction events generalizing s s' with
  | nil => exact ⟨rfl, h⟩
  | cons e rest ih =>
    by_cases he : e = .prune
    · subst he
      exact ih h.prune
    · obtain ⟨htold, halike⟩ := ih (h.step he)
      rw [List.filter_cons_of_pos (by simpa using he)]
      simp only [told, replies, List.filter_cons, decide_eq_true he, if_true, h.reply he]
      exact ⟨congrArg _ htold, halike⟩

end Alike
end Turns
end PollKeeper
