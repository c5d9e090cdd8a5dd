import PollKeeper.Proofs.Refresh.Panic
import PollKeeper.Proofs.Refresh.Shutdown
import PollKeeper.Time.ZoneHistories

/-!
# The life of a worker

A worker lives from its start to the next shutdown, unless something was left behind before. A request to
stop that no task has taken stops the next task as soon as it starts, and a task that broke down is taken
for one that runs. Every later shutdown leaves such a request behind again, so from then on no worker lives.
-/

namespace PollKeeper

open Time Service

namespace Worker

/-- Each request to stop was taken, and no task has ended that was not stopped. -/
inductive IsHealthy : Worker → Prop where
  | idle : IsHealthy ⟨none, false⟩
  | waiting : IsHealthy ⟨some .waiting, false⟩
  | working : IsHealthy ⟨some .working, false⟩

inductive IsSpoilt : Worker → Prop where
  /-- The next task will stop at once. -/
  | leftOver : IsSpoilt ⟨none, true⟩
  /-- The task that ended stands in the way of another one. -/
  | ended : IsSpoilt ⟨some .ended, false⟩

variable {w : Worker}

namespace IsHealthy

theorem start (h : w.IsHealthy) : w.start.IsHealthy ∧ w.start.isLive = true := by
  cases h with
  | idle => exact ⟨.waiting, rfl⟩
  | waiting => exact ⟨.waiting, rfl⟩
  | working => exact ⟨.working, rfl⟩

theorem start_working (h : w.IsHealthy) : w.start = ⟨some .working, false⟩ ↔ w = ⟨some .working, false⟩ := by
  cases h <;> decide

/-- A request to stop is taken by a task that waits, and else by nobody. -/
theorem stop (h : w.IsHealthy) :
    if w.task = some .waiting then w.stop.IsHealthy else w.stop.IsSpoilt := by
  cases h with
  | idle => exact .leftOver
  | waiting => exact .idle
  | working => exact .leftOver

end IsHealthy

namespace IsSpoilt

theorem not_isLive (h : w.IsSpoilt) : w.isLive = false := by cases h <;> rfl

theorem start (h : w.IsSpoilt) : w.start.IsSpoilt := by cases h <;> exact .ended

theorem stop (h : w.IsSpoilt) : w.stop.IsSpoilt := by cases h <;> exact .leftOver

private theorem not_waiting (h : w.IsSpoilt) : w.task ≠ some .waiting := by cases h <;> decide

end IsSpoilt
end Worker

inductive Timer where
  | updates
  | edits
  | expiry

inductive DutyEvent where
  | start
  | timer (t : Timer) (now : Instant)
  /-- The task gets what it waits for, or is told that it will not get it. -/
  | proceed (now : Instant) (answer : Except GatewayError Unit)
  /-- A task that ends its work within the time that it is given does so before. -/
  | shutdown
  | store (e : StoreEvent)
  | enqueue (now : Instant) (key : PollKey)
  | reachable (now : Instant) (guild : GuildId)
  | unreachable (guild : GuildId)

namespace Duty

variable [ZoneClocks]

def worker (d : Duty) : Worker := d.service.scheduler.worker

def withWorker (d : Duty) (w : Worker) : Duty := { d with service.scheduler.worker := w }

def goOn (s : Service) : Job → Duty
  | .resting => Duty.withWorker ⟨s, .resting⟩ s.scheduler.worker.finish
  | job => ⟨s, job⟩

def serve (s : Service) (now : Instant) : Timer → Duty
  | .updates =>
    let (next, scheduler) := s.scheduler.take now
    goOn { s with scheduler } (.begun next)
  | .edits => ⟨s, .looking⟩
  | .expiry => ⟨s, .expiring⟩

def proceed (d : Duty) (now : Instant) (answer : Except GatewayError Unit) : Duty :=
  match d.job with
  | .resting => d
  | .reading r =>
    match d.service.prepare now r with
    | (.finished _, s) => goOn s .resting
    | (.panicked, s) => Duty.withWorker ⟨s, .resting⟩ s.scheduler.worker.crash
    | (.posting a, s) => ⟨s, .posting a⟩
  | .posting a =>
    match answer with
    | .ok _ => { d with job := .acknowledging a }
    | .error e => goOn (d.service.finishTick now a (.error e)).2 .resting
  | .acknowledging a => goOn (d.service.finishTick now a (.ok ())).2 .resting
  | .looking => goOn (SweepPhase.start d.service now).2 (.swept (SweepPhase.start d.service now).1)
  | .sweeping p => goOn (p.advance d.service now).2 (.swept (p.advance d.service now).1)
  | .expiring => goOn (outcome (sweepExpired now) d.service).2 .resting

def react (d : Duty) : DutyEvent → Duty
  | .start => d.withWorker d.worker.start
  | .timer t now =>
    if d.worker.task = some .waiting then serve (d.withWorker d.worker.begin).service now t else d
  | .proceed now answer => d.proceed now answer
  | .shutdown => ⟨(outcome Service.shutdown d.service).2, .resting⟩
  | .store e => { d with service.store := (d.service.store.react e).2 }
  | .enqueue now key => { d with service.scheduler := (d.service.scheduler.enqueue now key).2 }
  | .reachable now guild => { d with service := (outcome (markReachable now guild) d.service).2 }
  | .unreachable guild =>
    { d with service.scheduler := d.service.scheduler.markUnreachable guild }

def after (d : Duty) (events : List DutyEvent) : Duty := events.foldl react d

def proceeds (steps : List (Instant × Except GatewayError Unit)) : List DutyEvent :=
  steps.map fun step => .proceed step.1 step.2

/-- The event leaves something behind: a shutdown finds no task that waits, or a tick breaks down. -/
def Breaks (d : Duty) : DutyEvent → Prop
  | .shutdown => d.worker.task ≠ some .waiting
  | .proceed now _ => ∃ r, d.job = .reading r ∧ (d.service.prepare now r).1 = .panicked
  | _ => False

instance (d : Duty) : (e : DutyEvent) → Decidable (d.Breaks e)
  | .shutdown => inferInstanceAs (Decidable (d.worker.task ≠ some .waiting))
  | .proceed now _ =>
    match h : d.job with
    | .reading r =>
      decidable_of_iff ((d.service.prepare now r).1 = .panicked)
        ⟨fun hp => ⟨r, h, hp⟩, fun ⟨_, hr, hp⟩ => Job.reading.inj (h.symm.trans hr) ▸ hp⟩
    | .resting | .posting _ | .acknowledging _ | .looking | .sweeping _ | .expiring =>
      .isFalse fun ⟨_, hr, _⟩ => nomatch h.symm.trans hr
  | .start | .timer .. | .store _ | .enqueue .. | .reachable .. | .unreachable _ => .isFalse id

/-- Some event of a run leaves something behind. -/
def BreaksDown : Duty → List DutyEvent → Prop
  | _, [] => False
  | d, e :: rest => d.Breaks e ∨ (d.react e).BreaksDown rest

instance decidableBreaksDown (d : Duty) : (events : List DutyEvent) → Decidable (d.BreaksDown events)
  | [] => .isFalse id
  | e :: rest =>
    have := decidableBreaksDown (d.react e) rest
    inferInstanceAs (Decidable (d.Breaks e ∨ (d.react e).BreaksDown rest))

/-- There is a worker that waits for its timers or is at a job. -/
def GoesOn (d : Duty) : Prop :=
  d.worker.task = some .waiting ∧ d.job = .resting ∨ d.worker.task = some .working ∧ d.job ≠ .resting

/-- The worker, if there is one, does all that is asked of it: it works as long as it has a job. -/
structure IsManned (d : Duty) : Prop where
  healthy : d.worker.IsHealthy
  works : d.job ≠ .resting ↔ d.worker = ⟨some .working, false⟩

/-- There is no worker, and there will be none. -/
structure IsLost (d : Duty) : Prop where
  spoilt : d.worker.IsSpoilt
  job : d.job = .resting

end Duty

namespace SweepPhase

def left : SweepPhase → Nat
  | edited .. => 5
  | askedEdited .. => 4
  | acknowledged .. => 3
  | ended .. => 2
  | askedEnded .. => 1

theorem left_le (p : SweepPhase) : p.left ≤ 5 := by cases p <;> simp only [left] <;> decide

private theorem left_advance {s : Service} {now : Instant} {p p' : SweepPhase}
    (h : (p.advance s now).1 = some p') : p'.left < p.left := by
  cases p with
  | edited | ended =>
    cases h
    exact Nat.lt_succ_self _
  | askedEdited | acknowledged =>
    simp only [advance] at h
    split at h
    · cases h
      exact Nat.lt_succ_self _
    · cases h
  | askedEnded => cases h

end SweepPhase

namespace Job

def left : Job → Nat
  | resting => 0
  | reading _ => 3
  | posting _ => 2
  | acknowledging _ => 1
  | looking => 6
  | sweeping p => p.left
  | expiring => 1

theorem left_le (job : Job) : job.left ≤ 6 := by
  cases job with
  | sweeping p => exact p.left_le.trans (Nat.le_succ 5)
  | _ => simp [left]

private theorem eq_resting_of_left {job : Job} (h : job.left = 0) : job = resting := by
  cases job with
  | resting => rfl
  | sweeping p => cases p <;> cases h
  | _ => cases h

private theorem left_swept {next : Option SweepPhase} {n : Nat} (hn : 0 < n)
    (h : ∀ p, next = some p → p.left < n) : (swept next).left < n := by
  cases next with
  | none => exact hn
  | some p => exact h p rfl

end Job

namespace Duty

private theorem job_goOn (s : Service) (job : Job) : (goOn s job).job = job := by cases job <;> rfl

theorem left_proceed [ZoneClocks] {d : Duty} (hjob : d.job ≠ .resting) (now : Instant)
    (answer : Except GatewayError Unit) : (d.proceed now answer).job.left < d.job.left := by
  obtain ⟨s, job⟩ := d
  cases job with
  | resting => exact absurd rfl hjob
  | reading r =>
    simp only [proceed]
    rcases s.prepare now r with ⟨_ | _ | _, _⟩
    · simp [job_goOn, Job.left]
    · exact Nat.zero_lt_succ 2
    · exact Nat.lt_succ_self 2
  | posting a =>
    cases answer with
    | ok _ => exact Nat.lt_succ_self 1
    | error e => exact Nat.two_pos
  | acknowledging a => exact Nat.one_pos
  | looking =>
    simp only [proceed, job_goOn]
    exact Job.left_swept (by decide) fun p _ => Nat.lt_succ_of_le p.left_le
  | sweeping p =>
    have hleft : 0 < p.left := by cases p <;> exact Nat.zero_lt_succ _
    simp only [proceed, job_goOn]
    exact Job.left_swept hleft fun p' h => SweepPhase.left_advance h
  | expiring => exact Nat.one_pos

end Duty

namespace Service

variable {s s' : Service} {now : Instant} {r : Refresh}

theorem apart_worker : Apart (·.worker) :=
  ⟨⟨fun _ _ => rfl, fun _ _ _ => rfl⟩, fun _ _ => rfl, fun _ _ => rfl⟩

private theorem worker_take (s : Scheduler) (now : Instant) : (s.take now).2.worker = s.worker := by
  simp only [Scheduler.take]
  split <;> rfl

theorem worker_settle (s : Scheduler) (now : Instant) (r : Refresh) (result : Except RefreshError Unit) :
    (s.settle now r result).2.worker = s.worker := by
  simp only [Scheduler.settle, Scheduler.retry]
  split
  · rfl
  · split
    · rfl
    · split <;> rfl

theorem worker_prepare [ZoneClocks] (s : Service) (now : Instant) (r : Refresh) :
    (s.prepare now r).2.scheduler.worker = s.scheduler.worker := by
  have hprepare := scheduler_prepare s now r
  generalize s.prepare now r = o at hprepare
  obtain ⟨outcome | _ | a, s'⟩ := o
  · obtain ⟨e, hsettles⟩ := hprepare
    exact congrArg (·.2.worker) hsettles ▸ worker_settle s.scheduler now r (.error e)
  · exact congrArg Scheduler.worker hprepare
  · exact congrArg Scheduler.worker hprepare.2

private theorem worker_finishTick (s : Service) (now : Instant) (a : Attempt)
    (answer : Except GatewayError Unit) :
    (s.finishTick now a answer).2.scheduler.worker = s.scheduler.worker :=
  worker_settle _ _ _ _

end Service

namespace Duty

variable {d : Duty} {e : DutyEvent}

private theorem GoesOn.isLive (h : d.GoesOn) : d.worker.isLive = true := by
  rcases h with ⟨hwaits, -⟩ | ⟨hworks, -⟩
  · simp [Worker.isLive, hwaits]
  · simp [Worker.isLive, hworks]

theorem IsManned.goesOn (h : d.IsManned) (hlive : d.worker.isLive = true) : d.GoesOn := by
  have hworks := h.works
  rw [GoesOn]
  cases hw : d.worker
  rw [hw] at hworks hlive
  cases hw ▸ h.healthy with
  | idle => cases hlive
  | waiting => exact .inl ⟨rfl, not_not.mp fun hjob => nomatch hworks.mp hjob⟩
  | working => exact .inr ⟨rfl, hworks.mpr rfl⟩

/-- A task at work goes on working or waits again. -/
theorem manned_goOn {s : Service} (hs : s.scheduler.worker = ⟨some .working, false⟩) (job : Job) :
    (goOn s job).IsManned ∧ (goOn s job).worker.isLive = true := by
  cases job with
  | resting =>
    have hwaits : (goOn s .resting).worker = ⟨some .waiting, false⟩ := by
      rw [goOn, worker, withWorker, hs]
      rfl
    exact ⟨⟨hwaits ▸ .waiting, fun h => absurd rfl h, fun h => nomatch hwaits.symm.trans h⟩, hwaits ▸ rfl⟩
  | reading _ | posting _ | acknowledging _ | looking | sweeping _ | expiring =>
    exact ⟨⟨(congrArg Worker.IsHealthy hs).mpr .working, fun _ => hs, fun _ => nofun⟩,
      (congrArg Worker.isLive hs).trans rfl⟩

private theorem manned_serve {s : Service} (hs : s.scheduler.worker = ⟨some .working, false⟩)
    (now : Instant) (t : Timer) : (serve s now t).IsManned ∧ (serve s now t).worker.isLive = true := by
  cases t with
  | updates => exact manned_goOn ((worker_take s.scheduler now).trans hs) _
  | edits => exact manned_goOn hs .looking
  | expiry => exact manned_goOn hs .expiring

section

variable [ZoneClocks]

/-- The task gets on with its job, unless its tick breaks down. -/
theorem IsManned.proceed (hd : d.IsManned) (hjob : d.job ≠ .resting) {now : Instant}
    (hsound : ∀ r, d.job = .reading r → (d.service.prepare now r).1 ≠ .panicked)
    (answer : Except GatewayError Unit) :
    (d.proceed now answer).IsManned ∧ (d.proceed now answer).worker.isLive = true := by
  have hworks : d.service.scheduler.worker = ⟨some .working, false⟩ := hd.works.mp hjob
  obtain ⟨s, job⟩ := d
  cases job with
  | resting => exact absurd rfl hjob
  | reading r =>
    have hkept := worker_prepare s now r
    have hquiet := hsound r rfl
    simp only [Duty.proceed]
    generalize s.prepare now r = o at hkept hquiet
    obtain ⟨start, s'⟩ := o
    cases start with
    | finished outcome => exact manned_goOn (hkept.trans hworks) .resting
    | panicked => exact absurd rfl hquiet
    | posting a => exact manned_goOn (hkept.trans hworks) (.posting a)
  | posting a =>
    cases answer with
    | ok _ => exact manned_goOn hworks (.acknowledging a)
    | error e => exact manned_goOn ((worker_finishTick s now a (.error e)).trans hworks) .resting
  | acknowledging a => exact manned_goOn ((worker_finishTick s now a (.ok ())).trans hworks) .resting
  | looking => exact manned_goOn ((congrArg Scheduler.worker (scheduler_start s now)).trans hworks) _
  | sweeping p => exact manned_goOn ((apart_worker.advance s now p).trans hworks) _
  | expiring => exact manned_goOn ((apart_worker.sweepExpired now s).trans hworks) .resting

theorem worker_shutdown (d : Duty) : (d.react .shutdown).worker = d.worker.stop :=
  congrArg (·.2.scheduler.worker) (outcome_shutdown d.service)

/-- Only a shutdown ends a worker that does what is asked of it, unless an event leaves something
behind. -/
theorem IsManned.react (hd : d.IsManned) (e : DutyEvent) :
    (d.Breaks e → (d.react e).IsLost) ∧ (¬ d.Breaks e → (d.react e).IsManned ∧
      (e ≠ .shutdown → d.worker.isLive = true → (d.react e).worker.isLive = true)) := by
  have hsame : ∀ {d' : Duty}, d'.worker = d.worker → d'.job = d.job →
      d'.IsManned ∧ (e ≠ .shutdown → d.worker.isLive = true → d'.worker.isLive = true) :=
    fun hworker hjob => ⟨⟨hworker ▸ hd.healthy, hworker ▸ hjob ▸ hd.works⟩, fun _ hlive => hworker ▸ hlive⟩
  cases e with
  | start =>
    exact ⟨False.elim, fun _ => ⟨⟨hd.healthy.start.1, hd.works.trans hd.healthy.start_working.symm⟩,
      fun _ _ => hd.healthy.start.2⟩⟩
  | timer t now =>
    refine ⟨False.elim, fun _ => ?_⟩
    simp only [Duty.react]
    split
    · next hwaits =>
      have hbegun : (d.withWorker d.worker.begin).service.scheduler.worker = ⟨some .working, false⟩ := by
        have hhealthy := hd.healthy
        show d.worker.begin = _
        cases hw : d.worker
        rw [hw] at hhealthy hwaits
        cases hhealthy with
        | waiting => rfl
        | idle | working => cases hwaits
      exact ⟨(manned_serve hbegun now t).1, fun _ _ => (manned_serve hbegun now t).2⟩
    · exact hsame rfl rfl
  | proceed now answer =>
    constructor
    · rintro ⟨r, hjob, hpanicked⟩
      have hworks : d.service.scheduler.worker = ⟨some .working, false⟩ :=
        hd.works.mp (by rw [hjob]; nofun)
      have hkept := worker_prepare d.service now r
      simp only [Duty.react, Duty.proceed, hjob]
      generalize d.service.prepare now r = o at hkept hpanicked
      obtain ⟨start, s⟩ := o
      obtain rfl : start = .panicked := hpanicked
      refine ⟨?_, rfl⟩
      show s.scheduler.worker.crash.IsSpoilt
      rw [hkept.trans hworks]
      exact .ended
    · intro hsound
      by_cases hjob : d.job = .resting
      · have hnothing : d.react (.proceed now answer) = d := by simp only [Duty.react, Duty.proceed, hjob]
        rw [hnothing]
        exact hsame rfl rfl
      · have hon := hd.proceed hjob (fun r hr hp => hsound ⟨r, hr, hp⟩) answer
        exact ⟨hon.1, fun _ _ => hon.2⟩
  | shutdown =>
    have hstop := hd.healthy.stop
    rw [← worker_shutdown] at hstop
    constructor
    · intro hwaits
      rw [if_neg hwaits] at hstop
      exact ⟨hstop, rfl⟩
    · intro hwaits
      rw [if_pos (Decidable.not_not.mp hwaits)] at hstop
      have hgone : (d.react .shutdown).worker.task = none := congrArg Worker.task (worker_shutdown d)
      exact ⟨⟨hstop, fun h => absurd rfl h, fun h => nomatch hgone.symm.trans (congrArg Worker.task h)⟩,
        fun h => absurd rfl h⟩
  | store _ | enqueue _ _ | unreachable _ => exact ⟨False.elim, fun _ => hsame rfl rfl⟩
  | reachable now guild =>
    exact ⟨False.elim, fun _ => hsame (apart_worker.markReachable now guild d.service) rfl⟩

private theorem IsLost.react (hd : d.IsLost) (e : DutyEvent) : (d.react e).IsLost := by
  cases e with
  | start => exact ⟨hd.spoilt.start, hd.job⟩
  | timer t now =>
    have hnothing : d.react (.timer t now) = d := if_neg hd.spoilt.not_waiting
    rwa [hnothing]
  | proceed now answer =>
    have hnothing : d.react (.proceed now answer) = d := by
      simp only [Duty.react, Duty.proceed, hd.job]
    rwa [hnothing]
  | shutdown => exact ⟨worker_shutdown d ▸ hd.spoilt.stop, rfl⟩
  | store _ | enqueue _ _ | unreachable _ => exact ⟨hd.spoilt, hd.job⟩
  | reachable now guild =>
    have hkept : (d.react (.reachable now guild)).worker = d.worker :=
      apart_worker.markReachable now guild d.service
    exact ⟨hkept ▸ hd.spoilt, hd.job⟩

theorem IsLost.after (hd : d.IsLost) (events : List DutyEvent) : (d.after events).IsLost := by
  induction events generalizing d with
  | nil => exact hd
  | cons e rest ih => exact ih (hd.react e)

/-- In a run either something is left behind and the worker is lost, or it does all that is asked of it. -/
theorem IsManned.after (hd : d.IsManned) (events : List DutyEvent) :
    (d.BreaksDown events → (d.after events).IsLost) ∧
      (¬ d.BreaksDown events → (d.after events).IsManned) := by
  induction events generalizing d with
  | nil => exact ⟨False.elim, fun _ => hd⟩
  | cons e rest ih =>
    obtain ⟨hbreaks, hgoes⟩ := hd.react e
    by_cases he : d.Breaks e
    · exact ⟨fun _ => (hbreaks he).after rest, fun h => absurd (.inl he) h⟩
    · obtain ⟨hlost, hmanned⟩ := ih (hgoes he).1
      exact ⟨fun h => hlost (h.resolve_left he), fun h => hmanned fun hrest => h (.inr hrest)⟩

/-- A live worker stays alive as long as it is not stopped. -/
theorem IsManned.isLive_after (hd : d.IsManned) (hlive : d.worker.isLive = true) {events : List DutyEvent}
    (hevents : .shutdown ∉ events) (hsound : ¬ d.BreaksDown events) :
    (d.after events).worker.isLive = true := by
  induction events generalizing d with
  | nil => exact hlive
  | cons e rest ih =>
    obtain ⟨he, hrest⟩ := not_or.mp hsound
    obtain ⟨hmanned, hstays⟩ := (hd.react e).2 he
    have hshutdown : e ≠ .shutdown := fun h => hevents (h ▸ List.mem_cons_self)
    exact ih hmanned (hstays hshutdown hlive) (fun h => hevents (List.mem_cons_of_mem _ h)) hrest

/-- A live worker that gets on with its job comes back to its timers. -/
theorem IsManned.waits_again (hd : d.IsManned) (hlive : d.worker.isLive = true)
    {steps : List (Instant × Except GatewayError Unit)} (hlong : d.job.left ≤ steps.length)
    (hsound : ¬ d.BreaksDown (proceeds steps)) :
    (d.after (proceeds steps)).worker.task = some .waiting := by
  induction steps generalizing d with
  | nil =>
    have hresting := Job.eq_resting_of_left (Nat.le_zero.mp hlong)
    rcases hd.goesOn hlive with ⟨hwaits, -⟩ | ⟨-, hjob⟩
    · exact hwaits
    · exact absurd hresting hjob
  | cons step rest ih =>
    obtain ⟨now, answer⟩ := step
    obtain ⟨he, hrest⟩ := not_or.mp hsound
    obtain ⟨hmanned, hstays⟩ := (hd.react (.proceed now answer)).2 he
    refine ih hmanned (hstays nofun hlive) ?_ hrest
    by_cases hjob : d.job = .resting
    · have hnothing : d.react (.proceed now answer) = d := by simp only [Duty.react, Duty.proceed, hjob]
      rw [hnothing, hjob]
      exact Nat.zero_le _
    · exact Nat.le_of_lt_succ ((left_proceed hjob now answer).trans_le hlong)

theorem breaksDown_append {events more : List DutyEvent} :
    d.BreaksDown (events ++ more) ↔ d.BreaksDown events ∨ (d.after events).BreaksDown more := by
  induction events generalizing d with
  | nil => exact (or_iff_right id).symm
  | cons e rest ih =>
    rw [List.cons_append, BreaksDown, ih, BreaksDown, or_assoc]
    rfl

/-- After a start there is a worker that goes on until the next shutdown, just if nothing was left behind:
each shutdown before has found a task that waited for it, and no tick has broken down. What the worker does
comes to an end after a few steps, and it waits for its timers again. Once something was left behind, no
worker lives any more, whatever happens. -/
theorem live_until_shutdown {d : Duty} (hjob : d.job = .resting) (hworker : d.worker = .idle)
    (before : List DutyEvent) {later : List DutyEvent} (hlater : .shutdown ∉ later) :
    let events := before ++ .start :: later
    ((d.after events).GoesOn ↔ ¬ d.BreaksDown events) ∧
      (∀ steps : List (Instant × Except GatewayError Unit), 6 ≤ steps.length →
        ¬ d.BreaksDown (events ++ proceeds steps) →
          (d.after (events ++ proceeds steps)).worker.task = some .waiting) ∧
      (d.BreaksDown before → ∀ more, (d.after (before ++ more)).worker.isLive = false) := by
  intro events
  have hd : d.IsManned := ⟨hworker ▸ .idle, fun h => absurd hjob h, fun h => nomatch hworker.symm.trans h⟩
  have hgoes : ¬ d.BreaksDown events → (d.after events).IsManned ∧ (d.after events).worker.isLive = true := by
    intro hsound
    refine ⟨(hd.after events).2 hsound, ?_⟩
    rw [breaksDown_append, not_or] at hsound
    have hmanned := (hd.after before).2 hsound.1
    obtain ⟨hstarted, -⟩ := (hmanned.react .start).2 id
    have hlive := hstarted.isLive_after hmanned.healthy.start.2 hlater fun h => hsound.2 (.inr h)
    rwa [after, List.foldl_append]
  refine ⟨⟨fun hgoesOn hbroken => ?_, fun hsound => ?_⟩, fun steps hlong hsound => ?_,
    fun hbroken more => ?_⟩
  · have hdead := ((hd.after events).1 hbroken).spoilt.not_isLive
    exact absurd hgoesOn.isLive (Bool.eq_false_iff.mp hdead)
  · exact (hgoes hsound).1.goesOn (hgoes hsound).2
  · rw [breaksDown_append, not_or] at hsound
    obtain ⟨hmanned, hlive⟩ := hgoes hsound.1
    rw [after, List.foldl_append]
    exact hmanned.waits_again hlive ((d.after events).job.left_le.trans hlong) hsound.2
  · have hlost := ((hd.after before).1 hbroken).after more
    rw [after, List.foldl_append]
    exact hlost.spoilt.not_isLive

end

def withBoth (first second : Poll) : Duty :=
  let store := Store.fresh.after [.acquire 1, .request .earliest (.ofGuild ⟨1, 0⟩ (.insert 7 first)),
    .request .earliest (.ofGuild ⟨1, 0⟩ (.insert 8 second)), .release ⟨1, 0⟩]
  let scheduler := ((Scheduler.fresh .everySecond).markReachable 1).enqueueAll .earliest [⟨1, 7⟩, ⟨1, 8⟩]
  ⟨⟨store, scheduler⟩, .resting⟩

open ZoneHistories

/-- A worker refreshes a poll and is stopped, and the next one deletes old polls. -/
theorem live_until_shutdown_of_lunch :
    let d := withBoth { Poll.lunch with choices := [⟨1, "Here", .empty⟩] } .lunch
    let before : List DutyEvent :=
      [.start, .timer .updates .earliest, .proceed .earliest (.ok ()), .proceed .earliest (.ok ()),
        .proceed .earliest (.ok ()), .shutdown]
    let later : List DutyEvent := [.timer .expiry .latest, .proceed .latest (.ok ())]
    (d.job = .resting ∧ d.worker = .idle ∧ .shutdown ∉ later) ∧
      ¬ d.BreaksDown (before ++ .start :: later) ∧
      (d.after (before ++ .start :: later)).GoesOn := by
  intro d before later
  have hlater : .shutdown ∉ later := by simp [later]
  have hsound : ¬ d.BreaksDown (before ++ .start :: later) := by decide +kernel
  exact ⟨⟨rfl, by decide, hlater⟩, hsound, (live_until_shutdown rfl (by decide) before hlater).1.mpr hsound⟩

/-- A worker that is started after a shutdown does not live if there was no worker to stop, or one that
had to be aborted. If a worker has broken down, no other one comes to life, and the refreshes in the queue
are not done. -/
theorem started_not_live :
    let d := withBoth .lunch .lunch
    (d.after [.shutdown, .start]).worker.isLive = false ∧
      (d.after [.start, .timer .edits .earliest, .shutdown, .start]).worker.isLive = false ∧
      let broken := (withBoth .lastMinute .lunch).after
        [.start, .timer .updates .earliest, .proceed .earliest (.ok ()), .start, .timer .updates .earliest]
      broken.worker.isLive = false ∧ broken.service.scheduler.queue.keys = [⟨1, 8⟩] := by
  decide +kernel

end Duty
end PollKeeper
