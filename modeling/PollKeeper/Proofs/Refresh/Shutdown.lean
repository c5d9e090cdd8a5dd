import Mathlib.Logic.Relation
import PollKeeper.Proofs.Refresh.Phases
import PollKeeper.Proofs.Store.Pending
import PollKeeper.Time.ZoneHistories

/-!
# Shutdowns keep the refreshes that are left

A shutdown stops or aborts the worker wherever it waits for something: for the lock of a guild, for the
rows of a poll, for the chat platform or for an acknowledgement, or between the phases of a sweep. What it
keeps for later are the refreshes in line and the one that the running tick has taken off the line; each
comes back once when its guild is reachable again.
-/

namespace PollKeeper

open Time Service

/-- What the worker is doing when it waits. -/
inductive Job where
  | resting
  | reading (r : Refresh)
  | posting (a : Attempt)
  | acknowledging (a : Attempt)
  | looking
  | sweeping (p : SweepPhase)
  | expiring

namespace Job

def begun : Option Refresh → Job
  | none => resting
  | some r => reading r

def swept : Option SweepPhase → Job
  | none => resting
  | some p => sweeping p

/-- The refresh that the running tick has taken off the line and not finished. -/
def unfinished? : Job → Option PollKey
  | reading r => some r.key
  | posting a => some a.refresh.key
  | acknowledging a => some a.refresh.key
  | _ => none

private theorem unfinished?_begun (next : Option Refresh) :
    (begun next).unfinished? = next.map (·.key) := by
  cases next <;> rfl

private theorem unfinished?_swept (next : Option SweepPhase) : (swept next).unfinished? = none := by
  cases next <;> rfl

end Job

/-- A service whose worker is at some job. -/
structure Duty where
  service : Service
  job : Job

namespace Duty

variable [ZoneClocks]

/-- One step of the worker, or of anybody else. What the worker has done to the store by the time at
which it is aborted is among the things that may happen to the store. -/
inductive Step : Duty → Duty → Prop where
  | store {d : Duty} (store : Store) : Step d { d with service.store := store }
  | enqueue {d : Duty} (now : Instant) (key : PollKey) :
      Step d { d with service.scheduler := (d.service.scheduler.enqueue now key).2 }
  | reachable {d : Duty} (now : Instant) (guild : GuildId) :
      Step d { d with service := (outcome (markReachable now guild) d.service).2 }
  | unreachable {d : Duty} (guild : GuildId) :
      Step d { d with service.scheduler := d.service.scheduler.markUnreachable guild }
  | tick {d : Duty} (now : Instant) (hjob : d.job = .resting) :
      Step d ⟨{ d.service with scheduler := (d.service.scheduler.take now).2 },
        .begun (d.service.scheduler.take now).1⟩
  | read {d : Duty} (now : Instant) {r : Refresh} {a : Attempt} {s : Service}
      (hjob : d.job = .reading r) (hread : d.service.prepare now r = (.posting a, s)) :
      Step d ⟨s, .posting a⟩
  | unreadable {d : Duty} (now : Instant) {r : Refresh} {outcome : TickOutcome} {s : Service}
      (hjob : d.job = .reading r) (hread : d.service.prepare now r = (.finished outcome, s)) :
      Step d ⟨s, .resting⟩
  | refuse {d : Duty} (now : Instant) (e : GatewayError) {a : Attempt} (hjob : d.job = .posting a) :
      Step d ⟨(d.service.finishTick now a (.error e)).2, .resting⟩
  | deliver {d : Duty} {a : Attempt} (hjob : d.job = .posting a) :
      Step d { d with job := .acknowledging a }
  | acknowledge {d : Duty} (now : Instant) {a : Attempt} (hjob : d.job = .acknowledging a) :
      Step d ⟨(d.service.finishTick now a (.ok ())).2, .resting⟩
  | sweep {d : Duty} (hjob : d.job = .resting) : Step d { d with job := .looking }
  | found {d : Duty} (now : Instant) (hjob : d.job = .looking) :
      Step d ⟨(SweepPhase.start d.service now).2, .swept (SweepPhase.start d.service now).1⟩
  | advance {d : Duty} (now : Instant) {p : SweepPhase} (hjob : d.job = .sweeping p) :
      Step d ⟨(p.advance d.service now).2, .swept (p.advance d.service now).1⟩
  | expire {d : Duty} (hjob : d.job = .resting) : Step d { d with job := .expiring }
  | expired {d : Duty} (now : Instant) (hjob : d.job = .expiring) :
      Step d ⟨(outcome (sweepExpired now) d.service).2, .resting⟩
  | shutdown {d : Duty} : Step d ⟨(outcome Service.shutdown d.service).2, .resting⟩

/-- A worker that has no tick under way when it is started. -/
structure Starts (d : Duty) : Prop where
  job : d.job = .resting
  inFlight : d.service.scheduler.inFlight = none

def Runs : Duty → Duty → Prop := Relation.ReflTransGen Step

end Duty

namespace Scheduler

theorem inFlight_settle (s : Scheduler) (now : Instant) (r : Refresh)
    (result : Except RefreshError Unit) : (s.settle now r result).2.inFlight = none := by
  simp only [settle, retry]
  split
  · rfl
  · split
    · rfl
    · split <;> rfl

end Scheduler

namespace Service

variable {α β : Type} {s s' : Service} {now : Instant} {r : Refresh} {a : Attempt}

private theorem prepare_eq_posting [ZoneClocks] (h : s.prepare now r = (.posting a, s')) :
    a.refresh = r ∧ s'.scheduler = s.scheduler := by
  have hprepare := scheduler_prepare s now r
  rwa [h] at hprepare

private theorem prepare_eq_finished [ZoneClocks] {outcome : TickOutcome}
    (h : s.prepare now r = (.finished outcome, s')) :
    s'.scheduler.inFlight = none := by
  have hprepare := scheduler_prepare s now r
  rw [h] at hprepare
  obtain ⟨e, hsettles⟩ := hprepare
  exact congrArg (·.2.inFlight) hsettles ▸ Scheduler.inFlight_settle _ now r (.error e)

private theorem inFlight_finishTick (s : Service) (now : Instant) (a : Attempt)
    (answer : Except GatewayError Unit) : (s.finishTick now a answer).2.scheduler.inFlight = none :=
  s.scheduler.inFlight_settle now a.refresh (answer.mapError .gateway)

/-- A shutdown takes everything out of the scheduler, whether or not it can be kept. -/
theorem outcome_shutdown (s : Service) :
    outcome shutdown s =
      (((Store.persist s.scheduler.takeAll.1).outcome s.store).1.map fun _ => s.scheduler.takeAll.1.length,
        ⟨((Store.persist s.scheduler.takeAll.1).outcome s.store).2,
          { s.scheduler with worker := s.scheduler.worker.stop, inFlight := none, queue := .empty }⟩) := by
  have htaken : ({ s.scheduler with worker := s.scheduler.worker.stop } : Scheduler).takeAll.1 =
      s.scheduler.takeAll.1 := rfl
  simp only [shutdown, outcome_bind, outcome_onScheduler, outcome_onStore, htaken]
  rcases (Store.persist s.scheduler.takeAll.1).outcome s.store with ⟨_ | _, _⟩ <;> rfl

def KeepsInFlight (a : ServiceAction α) : Prop :=
  ∀ s, (outcome a s).2.scheduler.inFlight = s.scheduler.inFlight

theorem apart_inFlight : Apart (·.inFlight) :=
  ⟨⟨fun _ _ => rfl, fun _ _ _ => rfl⟩, fun _ _ => rfl, fun _ _ => rfl⟩

private theorem keepsInFlight_markReachable (now : Instant) (guild : GuildId) :
    KeepsInFlight (markReachable now guild) := apart_inFlight.markReachable now guild

private theorem keepsInFlight_sweepExpired (now : Instant) : KeepsInFlight (sweepExpired now) :=
  apart_inFlight.sweepExpired now

end Service

namespace Duty

variable {d d' : Duty}

/-- The refresh in flight is the one that the running tick has not finished. -/
def Tracks (d : Duty) : Prop := d.service.scheduler.inFlight = d.job.unfinished?

private theorem Starts.tracks (h : d.Starts) : d.Tracks := by
  rw [Tracks, h.job, h.inFlight]
  rfl

theorem Step.tracks [ZoneClocks] (h : Step d d') (hd : d.Tracks) : d'.Tracks := by
  cases h with
  | store | enqueue | unreachable => exact hd
  | reachable now guild => exact (keepsInFlight_markReachable now guild d.service).trans hd
  | tick now hjob =>
    rw [Tracks, hjob] at hd
    rw [Tracks, Job.unfinished?_begun, Scheduler.inFlight_take, hd]
    exact Option.or_none
  | read now hjob hread =>
    obtain ⟨rfl, hscheduler⟩ := prepare_eq_posting hread
    rw [Tracks, hjob] at hd
    rw [Tracks, hscheduler, hd]
    rfl
  | unreadable now hjob hread => exact prepare_eq_finished hread
  | refuse now e hjob => exact inFlight_finishTick d.service now _ (.error e)
  | deliver hjob =>
    rw [Tracks, hjob] at hd
    exact hd
  | acknowledge now hjob => exact inFlight_finishTick d.service now _ (.ok ())
  | sweep hjob | expire hjob =>
    rw [Tracks, hjob] at hd
    exact hd
  | found now hjob =>
    rw [Tracks, hjob] at hd
    rw [Tracks, Job.unfinished?_swept, scheduler_start, hd]
    rfl
  | advance now hjob =>
    rw [Tracks, hjob] at hd
    rw [Tracks, Job.unfinished?_swept, apart_inFlight.advance, hd]
    rfl
  | expired now hjob =>
    rw [Tracks, hjob] at hd
    exact (keepsInFlight_sweepExpired now d.service).trans hd
  | shutdown =>
    rw [Tracks, outcome_shutdown]
    rfl

theorem Runs.tracks [ZoneClocks] (h : Runs d d') (hd : d.Tracks) : d'.Tracks := by
  induction h with
  | refl => exact hd
  | tail _ hstep ih => exact hstep.tracks ih

end Duty

namespace Store

/-- If the refreshes can be kept, those that were not kept before are added, each of them once. -/
theorem pending_persist {s : Store} {keys : List PollKey} {n : Nat}
    (h : ((persist keys).outcome s).1 = .ok n) :
    ∃ added, ((persist keys).outcome s).2.database.tables.pending =
        s.database.tables.pending ++ added ∧ added.Nodup ∧
      ∀ key, key ∈ added ↔ key ∈ keys ∧ key ∉ s.database.tables.pending := by
  cases keys with
  | nil =>
    have hsame : ((persist []).outcome s).2 = s := rfl
    exact ⟨[], by simp [hsame], .nil, by simp⟩
  | cons first rest =>
    have hcount : (persist (first :: rest)).outcome s = _ :=
      StoreAction.outcome_change (fun t => .ok (t.savePending (first :: rest))) s
    rw [hcount] at h ⊢
    simp only [Database.write, Database.read] at h ⊢
    cases hclosed : s.database.closed with
    | true =>
      rw [hclosed] at h
      cases h
    | false =>
      obtain ⟨added, hsaved, hadded⟩ := Tables.savePending_adds (first :: rest) s.database.tables
      simp only [Bool.false_eq_true, if_false, hsaved]
      exact ⟨added, rfl, hadded⟩

theorem mem_pending_persist {s : Store} {keys : List PollKey} {n : Nat}
    (h : ((persist keys).outcome s).1 = .ok n) (key : PollKey) :
    key ∈ ((persist keys).outcome s).2.database.tables.pending ↔
      key ∈ s.database.tables.pending ∨ key ∈ keys := by
  obtain ⟨added, heq, -, hmem⟩ := pending_persist h
  rw [heq, List.mem_append, hmem key]
  by_cases hold : key ∈ s.database.tables.pending <;> simp [hold]

end Store

namespace Service

variable {s : Service}

theorem mem_pending_shutdown {n : Nat} (h : (outcome shutdown s).1 = .ok n) (key : PollKey) :
    key ∈ (outcome shutdown s).2.tables.pending ↔
      key ∈ s.tables.pending ∨ key ∈ s.scheduler.queue.keys ∨ s.scheduler.inFlight = some key := by
  rw [outcome_shutdown] at h ⊢
  cases hkept : ((Store.persist s.scheduler.takeAll.1).outcome s.store).1 with
  | error e =>
    rw [hkept] at h
    cases h
  | ok count =>
    refine (Store.mem_pending_persist hkept key).trans (or_congr_right ?_)
    rw [Scheduler.mem_takeAll, or_comm]

/-- A guild that comes back gets each of the refreshes that were kept for it once. -/
theorem markReachable_restores (hs : s.store.Coherent) (hsound : s.scheduler.queue.Sound)
    (now : Instant) (guild : GuildId) :
    (outcome (markReachable now guild) s).1 = .ok (s.tables.pendingOf guild).length ∧
      (outcome (markReachable now guild) s).2.scheduler.queue.Sound ∧
      ∀ key, key ∈ (outcome (markReachable now guild) s).2.scheduler.queue.keys ↔
        key ∈ s.scheduler.queue.keys ∨ key ∈ s.tables.pending ∧ key.guild = guild := by
  have hresult : (outcome (markReachable now guild) s).1 = .ok (s.tables.pendingOf guild).length := by
    have hleaves := (Store.serves_takePersisted guild).leaves hs
    simp only [markReachable, outcome_bind, outcome_onScheduler, outcome_onStore]
    rw [hleaves.result]
    rfl
  obtain ⟨queue, hqueue, hqueueSound, hmem⟩ :=
    Scheduler.enqueueAll_eq (s := s.scheduler.markReachable guild) hsound now (s.tables.pendingOf guild)
  rw [(markReachable_eq hs now guild).2, hqueue]
  exact ⟨hresult, hqueueSound, fun key => (hmem key).trans (or_congr_right Tables.mem_pendingOf)⟩

end Service

namespace Duty

/-- Whatever the worker was doing, a shutdown that succeeds keeps what was kept before, what is in line,
and the refresh that the running tick has not finished, and no more. As long as no poll of a guild is
deleted, a new scheduler gets just the refreshes of that guild, each of them once, when the guild is
reachable; then none is left for it, and those of the other guilds are still kept. -/
theorem refreshes_outlive_shutdown [ZoneClocks] {start d : Duty} (hstart : start.Starts)
    (hrun : start.Runs d) {n : Nat} (hok : (outcome Service.shutdown d.service).1 = .ok n) :
    let stopped := (outcome Service.shutdown d.service).2
    (stopped.scheduler.queue = .empty ∧ stopped.scheduler.inFlight = none ∧
      ∀ key, key ∈ stopped.tables.pending ↔ key ∈ d.service.tables.pending ∨
        key ∈ d.service.scheduler.queue.keys ∨ d.job.unfinished? = some key) ∧
    ∀ (guild : GuildId) (events : List StoreEvent), d.service.store.Coherent →
      stopped.store.KeepsPolls guild events → ∀ (config : SchedulerConfig) (now later : Instant),
      let restarted : Service := ⟨stopped.store.after events, .fresh config⟩
      let restored := outcome (markReachable now guild) restarted
      restored.1 = .ok (restarted.tables.pendingOf guild).length ∧
        (∀ key, key ∈ restored.2.scheduler.queue.keys ↔
          key ∈ stopped.tables.pending ∧ key.guild = guild) ∧
        restored.2.scheduler.queue.keys.Nodup ∧
        restored.2.tables.pending = restarted.tables.pending.filter (·.guild ≠ guild) ∧
        (outcome (markReachable later guild) restored.2).1 = .ok 0 := by
  intro stopped
  have htracks : d.service.scheduler.inFlight = d.job.unfinished? := hrun.tracks hstart.tracks
  have hstop : stopped = _ := congrArg Prod.snd (outcome_shutdown d.service)
  refine ⟨⟨by rw [hstop], by rw [hstop], fun key => ?_⟩, fun guild events hcoherent hkeeps config now later => ?_⟩
  · exact htracks ▸ mem_pending_shutdown hok key
  · intro restarted restored
    have hstopped : stopped.store.Coherent := (shutdown_eq hcoherent).1.coherent
    have hafter : restarted.store.Coherent := hstopped.after events
    obtain ⟨hresult, hsound, hmem⟩ := markReachable_restores hafter RefreshQueue.sound_empty now guild
    obtain ⟨⟨hrestored, htables⟩, -⟩ := markReachable_eq hafter now guild
    have hpending : restored.2.tables.pending = restarted.tables.pending.filter (·.guild ≠ guild) :=
      congrArg Tables.pending htables
    refine ⟨hresult, fun key => (hmem key).trans ?_, hsound.nodup_keys, hpending, ?_⟩
    · have hempty : key ∉ restarted.scheduler.queue.keys := List.not_mem_nil
      rw [or_iff_right hempty]
      refine and_congr_left fun hkey => ?_
      exact Store.mem_pending_after hstopped hkeeps hkey
    · have hagain := (markReachable_restores hrestored hsound later guild).1
      have hnone : restored.2.tables.pendingOf guild = [] := by
        refine List.eq_nil_iff_forall_not_mem.mpr fun key hkey => ?_
        obtain ⟨hkept, hguild⟩ := Tables.mem_pendingOf.mp hkey
        rw [hpending] at hkept
        exact of_decide_eq_true (List.mem_filter.mp hkept).2 hguild
      rw [hnone] at hagain
      exact hagain

def twoQueued : Duty :=
  ⟨⟨Store.fresh.after [.acquire 1],
    ((((Scheduler.fresh .everySecond).markReachable 1).enqueue .earliest ⟨1, 5⟩).2.enqueue .earliest
      ⟨1, 6⟩).2⟩, .resting⟩

def oneTaken : Duty :=
  ⟨{ twoQueued.service with scheduler := (twoQueued.service.scheduler.take .earliest).2 },
    .begun (twoQueued.service.scheduler.take .earliest).1⟩

open ZoneHistories

/-- A shutdown while a tick waits for the lock keeps both refreshes, and both come back. -/
theorem refreshes_outlive_shutdown_of_waiting :
    let stopped := (outcome Service.shutdown oneTaken.service).2
    let restored := outcome (markReachable .earliest 1)
      ⟨stopped.store.after [.request .earliest .clearCaches], .fresh .everySecond⟩
    (outcome Service.shutdown oneTaken.service).1 = .ok 2 ∧ oneTaken.job.unfinished? = some ⟨1, 5⟩ ∧
      ⟨1, 5⟩ ∈ stopped.tables.pending ∧ ⟨1, 6⟩ ∈ stopped.tables.pending ∧
      ⟨1, 5⟩ ∈ restored.2.scheduler.queue.keys ∧ restored.2.scheduler.queue.keys.Nodup ∧
      (outcome (markReachable .latest 1) restored.2).1 = .ok 0 := by
  intro stopped restored
  have hok : (outcome Service.shutdown oneTaken.service).1 = .ok 2 := by rfl
  have hrun : twoQueued.Runs oneTaken := .single (.tick .earliest rfl)
  obtain ⟨⟨-, -, hkept⟩, hrestored⟩ := refreshes_outlive_shutdown ⟨rfl, rfl⟩ hrun hok
  obtain ⟨-, hmem, hnodup, -, hagain⟩ := hrestored 1 [.request .earliest .clearCaches]
    (Store.coherent_after [.acquire 1]) ⟨trivial, fun _ h => h, trivial⟩ .everySecond .earliest .latest
  have htaken : ⟨1, 5⟩ ∈ stopped.tables.pending := (hkept ⟨1, 5⟩).mpr (.inr (.inr rfl))
  have hqueued : ⟨1, 6⟩ ∈ stopped.tables.pending :=
    (hkept ⟨1, 6⟩).mpr (.inr (.inl (by decide)))
  exact ⟨hok, rfl, htaken, hqueued, (hmem ⟨1, 5⟩).mpr ⟨htaken, rfl⟩, hnodup, hagain⟩

end Duty
end PollKeeper
