import PollKeeper.Proofs.Refresh.Interleaving
import PollKeeper.Proofs.Refresh.Queue
import PollKeeper.Proofs.Store.Effects

/-!
# Outcomes of steps of the service

What the operations of the scheduler do to the queue and to the refresh in flight, and what the parts
of which ticks and sweeps are made do to a service.
-/

namespace PollKeeper

open Time

/-- How many refreshes a tally settles: they are done with for good. -/
def Tally.settles : Tally → Nat
  | .delivered => 1
  | .missing => 1
  | .expired n => n
  | .exhausted => 1
  | _ => 0

def SchedulerConfig.everySecond : SchedulerConfig :=
  ⟨.ofSeconds 1, .ofSeconds 1, .ofSeconds 1, .ofSeconds 1, .ofSeconds 1, .ofSeconds 1, 3,
    .ofSeconds 1, .ofSeconds 1⟩

namespace Scheduler

variable {s : Scheduler} {key : PollKey} {r : Refresh}

theorem sound_enqueue (h : s.queue.Sound) (now : Instant) (key : PollKey) :
    (s.enqueue now key).2.queue.Sound := RefreshQueue.sound_upsert h _

theorem enqueueAll_eq (h : s.queue.Sound) (now : Instant) (keys : List PollKey) :
    ∃ queue, s.enqueueAll now keys = { s with queue } ∧ queue.Sound ∧
      ∀ k, k ∈ queue.keys ↔ k ∈ s.queue.keys ∨ k ∈ keys := by
  induction keys generalizing s with
  | nil => exact ⟨s.queue, rfl, h, by simp⟩
  | cons key rest ih =>
    obtain ⟨queue, heq, hsound, hmem⟩ := ih (sound_enqueue h now key)
    refine ⟨queue, heq, hsound, fun k => ?_⟩
    have hfirst : k ∈ (s.enqueue now key).2.queue.keys ↔ k ∈ s.queue.keys ∨ k = key :=
      RefreshQueue.mem_keys_upsert h
    rw [hmem k, hfirst, List.mem_cons, or_assoc]

theorem mem_takeAll : key ∈ s.takeAll.1 ↔ s.inFlight = some key ∨ key ∈ s.queue.keys := by
  rw [takeAll, List.mem_append, Option.mem_toList, RefreshQueue.keys, List.mem_map, List.mem_map]
  simp only [RefreshQueue.mem_drain]

theorem takeAll_eq (h : s.queue.Sound) : s.takeAll.1 = s.inFlight.toList ++ s.queue.keys := by
  rw [takeAll, RefreshQueue.drain_eq h, RefreshQueue.keys]

theorem take_fst (s : Scheduler) (now : Instant) :
    (s.take now).1 = (s.queue.popEligible now s.isReachable).next := by
  simp only [take]
  cases (s.queue.popEligible now s.isReachable).next <;> rfl

theorem queue_take (s : Scheduler) (now : Instant) :
    (s.take now).2.queue = (s.queue.popEligible now s.isReachable).queue := by
  simp only [take]
  cases (s.queue.popEligible now s.isReachable).next <;> rfl

theorem inFlight_take (s : Scheduler) (now : Instant) :
    (s.take now).2.inFlight = ((s.take now).1.map (·.key)).or s.inFlight := by
  rw [take_fst]
  simp only [take]
  cases (s.queue.popEligible now s.isReachable).next <;> rfl

/-- How a tick ends that has failed, and the queue that it leaves. -/
inductive Fails (s : Scheduler) (r : Refresh) : TickOutcome → RefreshQueue → Prop where
  | missing : Fails s r .missing s.queue
  | exhausted (attempts : Nat) : Fails s r (.exhausted attempts) s.queue
  | retrying (attempts : Nat) (again : Refresh) (hkey : again.key = r.key) :
      Fails s r (.retrying attempts) (s.queue.upsert again).2

theorem fails_settle (s : Scheduler) (now : Instant) (r : Refresh) (e : RefreshError) :
    s.Fails r (s.settle now r (.error e)).1 (s.settle now r (.error e)).2.queue := by
  simp only [settle]
  split
  · exact .missing
  · simp only [retry]
    split
    · exact .exhausted _
    · exact .retrying _ _ rfl

namespace Fails

variable {outcome : TickOutcome} {queue : RefreshQueue}

theorem sound (h : s.Fails r outcome queue) (hs : s.queue.Sound) : queue.Sound := by
  cases h with
  | missing => exact hs
  | exhausted attempts => exact hs
  | retrying attempts again hkey => exact RefreshQueue.sound_upsert hs again

theorem mem_keys (h : s.Fails r outcome queue) (hs : s.queue.Sound) (hk : key ∈ s.queue.keys) :
    key ∈ queue.keys := by
  cases h with
  | missing => exact hk
  | exhausted attempts => exact hk
  | retrying attempts again hkey => exact (RefreshQueue.mem_keys_upsert hs).mpr (.inl hk)

theorem isDrop_or_mem (h : s.Fails r outcome queue) (hs : s.queue.Sound) :
    outcome.isDrop = true ∨ r.key ∈ queue.keys := by
  cases h with
  | missing => exact .inl rfl
  | exhausted attempts => exact .inl rfl
  | retrying attempts again hkey =>
    exact .inr ((RefreshQueue.mem_keys_upsert hs).mpr (.inr hkey.symm))

end Fails

end Scheduler

namespace Service

variable {α β : Type}

@[simp] theorem outcome_pure (x : α) (s : Service) : outcome (pure x) s = (.ok x, s) := rfl

@[simp] theorem outcome_get (s : Service) :
    outcome (get : ServiceAction Service) s = (.ok s, s) := rfl

theorem outcome_bind (a : ServiceAction α) (f : α → ServiceAction β) (s : Service) :
    outcome (a >>= f) s = match outcome a s with
      | (.ok x, s') => outcome (f x) s'
      | (.error e, s') => (.error e, s') := by
  simp only [outcome, ExceptT.run_bind, StateT.run_bind]
  rcases StateT.run (ExceptT.run a) s with ⟨_ | _, _⟩ <;> rfl

theorem outcome_onStore (a : StoreAction α) (s : Service) :
    outcome (onStore a) s = ((a.outcome s.store).1, { s with store := (a.outcome s.store).2 }) := by
  simp only [onStore, outcome_bind, outcome_get]
  rcases a.outcome s.store with ⟨_ | _, _⟩ <;> rfl

@[simp] theorem outcome_onScheduler (f : Scheduler → α × Scheduler) (s : Service) :
    outcome (onScheduler f) s =
      (.ok (f s.scheduler).1, { s with scheduler := (f s.scheduler).2 }) := rfl

variable {γ : Type} {f : Scheduler → γ}

/-- A step leaves a part of the scheduler as it is. -/
def Keeps (f : Scheduler → γ) (a : ServiceAction α) : Prop :=
  ∀ s, f (outcome a s).2.scheduler = f s.scheduler

theorem keeps_pure (x : α) : Keeps f (pure x) := fun _ => rfl

theorem keeps_get : Keeps f (get : ServiceAction Service) := fun _ => rfl

theorem keeps_onStore (a : StoreAction α) : Keeps f (onStore a) := by
  intro s
  rw [outcome_onStore]

theorem keeps_onScheduler {g : Scheduler → α × Scheduler} (h : ∀ s, f (g s).2 = f s) :
    Keeps f (onScheduler g) :=
  fun s => h s.scheduler

theorem Keeps.bind {a : ServiceAction α} {b : α → ServiceAction β} (ha : Keeps f a)
    (hb : ∀ x, Keeps f (b x)) : Keeps f (a >>= b) := by
  intro s
  have hfirst := ha s
  rw [outcome_bind]
  generalize outcome a s = o at hfirst
  obtain ⟨_ | x, s'⟩ := o
  · exact hfirst
  · exact (hb x s').trans hfirst

/-- Reading a poll for a refresh has nothing to do with the scheduler, unless the refresh fails. -/
theorem scheduler_prepare [ZoneClocks] (s : Service) (now : Instant) (r : Refresh) :
    match (s.prepare now r).1 with
    | .finished outcome => ∃ e, s.scheduler.settle now r (.error e) =
        (outcome, (s.prepare now r).2.scheduler)
    | .panicked => (s.prepare now r).2.scheduler = s.scheduler
    | .posting a => a.refresh = r ∧ (s.prepare now r).2.scheduler = s.scheduler := by
  simp only [prepare]
  generalize (Store.refreshable r.key).outcome s.store = o
  obtain ⟨e | ⟨p, edit⟩, store⟩ := o
  · exact ⟨.store e, rfl⟩
  · cases htext : p.message? with
    | none => simp only [htext]
    | some text => simp only [htext, and_self]

theorem scheduler_start (s : Service) (now : Instant) :
    (SweepPhase.start s now).2.scheduler = s.scheduler := by
  have hkeeps := keeps_onStore (f := id) (Store.editedSince s.scheduler.editCutoff) s
  simp only [SweepPhase.start]
  generalize outcome (onStore (Store.editedSince s.scheduler.editCutoff)) s = o at hkeeps
  obtain ⟨_ | found, s'⟩ := o <;> exact hkeeps

/-- A part of the scheduler that a sweep leaves alone when it is done with its requests. -/
structure Unswept (f : Scheduler → γ) : Prop where
  editCursor : ∀ (s : Scheduler) editCursor, f { s with editCursor } = f s
  /-- A sweep counts what it finds, which does not settle a refresh. -/
  record : ∀ (s : Scheduler) (t : Tally), t.settles = 0 → f (s.record t) = f s

namespace Unswept

variable (hf : Unswept f)

include hf

theorem keeps_record {t : Tally} (ht : t.settles = 0) : Keeps f (Service.record t) :=
  keeps_onScheduler fun s => hf.record s t ht

theorem finishUnseen (started : Instant) (edits : List PollEdit) :
    Keeps f (finishUnseen started edits) :=
  (keeps_onStore _).bind fun _ => (keeps_onScheduler fun s => hf.editCursor s _).bind fun _ =>
    (hf.keeps_record rfl).bind fun _ => keeps_pure _

theorem finishEnded (keys : List PollKey) : Keeps f (finishEnded keys) :=
  (keeps_onStore _).bind fun _ => (hf.keeps_record rfl).bind fun _ => keeps_pure _

theorem sweepExpired (now : Instant) : Keeps f (sweepExpired now) :=
  keeps_get.bind fun _ => (keeps_onStore _).bind fun _ =>
    (hf.keeps_record rfl).bind fun _ => keeps_pure _

theorem advance_eq (s : Service) (now : Instant) (p : SweepPhase) :
    f (p.advance s now).2.scheduler = f (s.scheduler.enqueueAll now p.asks) := by
  cases p with
  | edited started found => rfl
  | askedEdited started found =>
    have hkeeps := hf.finishUnseen started found s
    simp only [SweepPhase.advance]
    generalize outcome (Service.finishUnseen started found) s = o at hkeeps
    obtain ⟨_ | n, s'⟩ := o <;> exact hkeeps
  | acknowledged started =>
    have hkeeps := keeps_onStore (f := f) (Store.endedUnrefreshed started) s
    simp only [SweepPhase.advance]
    generalize outcome (onStore (Store.endedUnrefreshed started)) s = o at hkeeps
    obtain ⟨_ | keys, s'⟩ := o <;> exact hkeeps
  | ended found => rfl
  | askedEnded found => exact hf.finishEnded found s

end Unswept

/-- A part of the scheduler with which requests for refreshes and sweeps have nothing to do. -/
structure Apart (f : Scheduler → γ) : Prop extends Unswept f where
  queue : ∀ (s : Scheduler) queue, f { s with queue } = f s
  reachable : ∀ (s : Scheduler) reachable, f { s with reachable } = f s

namespace Apart

variable (hf : Apart f)

include hf

theorem enqueueAll_eq (s : Scheduler) (now : Instant) (keys : List PollKey) :
    f (s.enqueueAll now keys) = f s := by
  induction keys generalizing s with
  | nil => rfl
  | cons key rest ih => exact (ih (s.enqueue now key).2).trans (hf.queue s _)

theorem enqueueAll (now : Instant) (keys : List PollKey) : Keeps f (enqueueAll now keys) :=
  keeps_onScheduler fun s => hf.enqueueAll_eq s now keys

private theorem sweepUnseen (now : Instant) : Keeps f (sweepUnseen now) :=
  keeps_get.bind fun _ => (keeps_onStore _).bind fun _ => (hf.enqueueAll now _).bind fun _ =>
    hf.finishUnseen now _

private theorem sweepEnded (now : Instant) : Keeps f (sweepEnded now) :=
  (keeps_onStore _).bind fun _ => (hf.enqueueAll now _).bind fun _ => hf.finishEnded _

theorem sweepEdits (now : Instant) : Keeps f (sweepEdits now) :=
  (hf.sweepUnseen now).bind fun _ => (hf.sweepEnded now).bind fun _ => keeps_pure _

theorem markReachable (now : Instant) (guild : GuildId) : Keeps f (markReachable now guild) :=
  (keeps_onScheduler fun s => hf.reachable s _).bind fun _ => (keeps_onStore _).bind fun keys =>
    (hf.enqueueAll now keys).bind fun _ => keeps_pure _

theorem advance (s : Service) (now : Instant) (p : SweepPhase) :
    f (p.advance s now).2.scheduler = f s.scheduler :=
  (hf.advance_eq s now p).trans (hf.enqueueAll_eq s.scheduler now p.asks)

end Apart

end Service

namespace Store

open StoreAction

/-- What a tick reads of a poll, unless its guild is busy. -/
def refreshed (s : Store) (key : PollKey) : Except StoreError (Poll × PollEdit) := do
  let _ ← (s.locks.acquire key.guild).1.mapError .ofLock
  let p ← (s.database.tables.fetch key).mapError .ofStorage
  let edit ← s.database.tables.latestEdit key
  pure (p, edit)

theorem leaves_refreshable {s : Store} (hs : s.Coherent) (key : PollKey) :
    Leaves ((refreshable key).outcome s) (s.refreshed key) s.database.tables := by
  have hread : Serves (do
        let p ← poll key
        let edit ← lastEdit key
        pure (p, edit))
      (reading fun t => do
        let p ← (t.fetch key).mapError .ofStorage
        let edit ← t.latestEdit key
        pure (p, edit)) := by
    refine ((serves_poll key).bind fun p => (serves_lastEdit key).map fun edit => (p, edit)).congr
      fun t => ?_
    simp only [reading]
    cases t.fetch key with
    | error _ => rfl
    | ok p => cases t.latestEdit key <;> rfl
  have hobtain : (acquire key.guild).outcome s = _ := outcome_obtain (·.acquire key.guild) s
  simp only [refreshed]
  cases hacquire : s.locks.acquire key.guild with
  | mk result locks =>
    rw [hacquire] at hobtain
    cases result with
    | error e =>
      have hfailed : (refreshable key).outcome s = (.error (.ofLock e), { s with locks }) :=
        outcome_bind_of_error hobtain
      rw [hfailed]
      exact ⟨⟨hs.isOpen, hs.caches⟩, rfl, rfl⟩
    | ok h =>
      have hleaves := hread.leaves_reading (s := { s with locks }) ⟨hs.isOpen, hs.caches⟩
      have hlocked : (refreshable key).outcome s = _ :=
        (outcome_bind_of_ok hobtain).trans (outcome_thenRelease _ h { s with locks })
      rw [hlocked]
      exact ⟨⟨hleaves.coherent.isOpen, hleaves.coherent.caches⟩, hleaves.result, hleaves.tables⟩

theorem refreshed_eq_ok_iff {s : Store} {key : PollKey} {p : Poll} {edit : PollEdit} :
    s.refreshed key = .ok (p, edit) ↔ (∃ h, (s.locks.acquire key.guild).1 = .ok h) ∧
      s.database.tables.fetch key = .ok p ∧ s.database.tables.latestEdit key = .ok edit := by
  constructor
  · intro h
    obtain ⟨handle, hhandle, h⟩ := bind_eq_ok h
    obtain ⟨q, hq, h⟩ := bind_eq_ok h
    obtain ⟨e, he, h⟩ := bind_eq_ok h
    cases h
    exact ⟨⟨handle, mapError_eq_ok hhandle⟩, mapError_eq_ok hq, he⟩
  · rintro ⟨⟨handle, hhandle⟩, hp, he⟩
    simp only [refreshed, hhandle, hp, he]
    rfl

end Store
end PollKeeper
