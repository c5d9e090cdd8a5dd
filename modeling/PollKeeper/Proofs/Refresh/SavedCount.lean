import Mathlib.Data.List.Dedup
import PollKeeper.Proofs.Refresh.Backoff
import PollKeeper.Proofs.Refresh.Merging
import PollKeeper.Time.ZoneHistories

/-!
# What a shutdown counts

A shutdown takes out the refresh that the running tick holds and those in line, and counts what it takes
out. The line holds each poll once. But a poll that is asked for while a tick holds its refresh comes into
line again; then it is taken out twice and counted twice, and kept once.
-/

namespace PollKeeper

open Time Service

namespace Scheduler

variable {s : Scheduler}

/-- The polls whose refresh is left to do: the interrupted one and those in line, each of them once. -/
def unfinished (s : Scheduler) : List PollKey := (s.inFlight.toList ++ s.queue.keys).dedup

/-- The poll of the interrupted refresh is in line as well. -/
def RequestedAgain (s : Scheduler) : Prop := ∃ key ∈ s.inFlight, key ∈ s.queue.keys

instance (s : Scheduler) : Decidable s.RequestedAgain :=
  inferInstanceAs (Decidable (∃ key ∈ s.inFlight, key ∈ s.queue.keys))

/-- What a shutdown takes out is one more if it takes out a poll twice. -/
theorem length_takeAll (hq : s.queue.Sound) :
    s.takeAll.1.length = s.unfinished.length + if s.RequestedAgain then 1 else 0 := by
  have hline : s.queue.keys.dedup = s.queue.keys := hq.nodup_keys.dedup
  rw [takeAll_eq hq, unfinished]
  cases hheld : s.inFlight with
  | none => simp [RequestedAgain, hheld, hline]
  | some key =>
    by_cases hagain : key ∈ s.queue.keys
    · simp [RequestedAgain, hheld, hagain, hline, List.dedup_cons_of_mem]
    · simp [RequestedAgain, hheld, hagain, hline, List.dedup_cons_of_notMem]

end Scheduler

namespace Service

/-- A shutdown that succeeds counts what it takes out, and keeps what is left to do and was not kept before,
each poll once. -/
theorem shutdown_saves {s : Service} (hq : s.scheduler.queue.Sound) {n : Nat}
    (h : (outcome shutdown s).1 = .ok n) :
    n = s.scheduler.unfinished.length + (if s.scheduler.RequestedAgain then 1 else 0) ∧
      ∃ added, (outcome shutdown s).2.tables.pending = s.tables.pending ++ added ∧
        added.Perm (s.scheduler.unfinished.filter (· ∉ s.tables.pending)) := by
  rw [outcome_shutdown] at h ⊢
  cases hkept : ((Store.persist s.scheduler.takeAll.1).outcome s.store).1 with
  | error e =>
    rw [hkept] at h
    cases h
  | ok count =>
    rw [hkept] at h
    cases h
    obtain ⟨added, hpending, hnodup, hmem⟩ := Store.pending_persist hkept
    refine ⟨Scheduler.length_takeAll hq, added, hpending, ?_⟩
    refine (List.perm_ext_iff_of_nodup hnodup ((List.nodup_dedup _).filter _)).mpr fun key => ?_
    rw [hmem key, List.mem_filter, List.mem_dedup, decide_eq_true_eq, Scheduler.takeAll_eq hq]
    rfl

end Service

namespace Session

variable {w : Session} {e : SessionEvent} {r : Refresh} {key : PollKey} {events : List SessionEvent}

theorem requestedAgain_iff (hw : w.Healthy) (hmark : w.scheduler.inFlight = some key) :
    w.scheduler.RequestedAgain ↔ (w.inLine? key).isSome := by
  rw [Option.isSome_iff_ne_none, ne_eq, inLine?, hw.sound.get?_eq_none, not_not]
  simp [Scheduler.RequestedAgain, hmark]

section

variable [ZoneClocks]

theorem inFlight_of_held (hw : w.Healthy) (hheld : w.inFlight? = some r)
    (hstill : (w.react e).inFlight? = some r) (hmark : (w.react e).scheduler.inFlight = some key) :
    w.scheduler.inFlight = some key ∧ ∀ aborts, e ≠ .shutdown aborts := by
  have hgoes : ∀ aborts, e ≠ .shutdown aborts := by
    rintro aborts rfl
    have hnone : (w.react (.shutdown aborts)).scheduler.inFlight = none :=
      congrArg (·.2.scheduler.inFlight) (outcome_shutdown w.service)
    cases hnone.symm.trans hmark
  refine ⟨?_, hgoes⟩
  cases e with
  | client | request | dropSweep | unreachable => exact hmark
  | tick m =>
    obtain ⟨s, stage, sweeps⟩ := w
    have hmoves := TickStage.moves hw.coherent stage m
    rw [react_tick] at hstill hmark
    generalize stage.move s m = o at hmoves hstill hmark
    cases hmoves with
    | idle | takes => cases hheld
    | panics | fails | acknowledges => cases hstill
    | calls now hreads hholds hscheduler => exact (congrArg Scheduler.inFlight hscheduler).symm.trans hmark
    | delivers | ignored => exact hmark
  | sweepEdits now => exact (apart_inFlight.sweepEdits now w.service).symm.trans hmark
  | beginSweep i now =>
    exact (congrArg Scheduler.inFlight (scheduler_start w.service now)).symm.trans hmark
  | advanceSweep i now =>
    cases hp : w.sweeps i with
    | none =>
      rwa [react_advanceSweep_of_none hp] at hmark
    | some p =>
      rw [react_advanceSweep hp] at hmark
      exact (apart_inFlight.advance w.service now p).symm.trans hmark
  | sweepExpired now => exact (apart_inFlight.sweepExpired now w.service).symm.trans hmark
  | shutdown aborts => exact absurd rfl (hgoes aborts)
  | reachable now guild => exact (apart_inFlight.markReachable now guild w.service).symm.trans hmark
  | restart => cases hstill

/-- While the tick goes on, only a shutdown takes a poll off the line. -/
theorem isSome_inLine?_of_held (hw : w.Healthy) (hheld : w.inFlight? = some r)
    (hstill : (w.react e).inFlight? = some r) (hgoes : ∀ aborts, e ≠ .shutdown aborts)
    (hline : (w.inLine? key).isSome) : ((w.react e).inLine? key).isSome := by
  obtain ⟨first, hfirst⟩ := Option.isSome_iff_exists.mp hline
  rw [Option.isSome_iff_ne_none]
  intro hleft
  cases (effect_react hw e).line.leaves key first hfirst hleft with
  | begun now hresting => cases (inFlight?_of_resting hresting).symm.trans hheld
  | expired now =>
    -- A tick that holds a refresh does not look for another one.
    have hsame : w.react (.tick (.begin now)) = w := by
      obtain ⟨s, stage, sweeps⟩ := w
      cases stage with
      | resting => cases hheld
      | _ => rfl
    rw [hsame, hfirst] at hleft
    cases hleft
  | drained aborts => exact hgoes aborts rfl
  | replaced => cases hstill

/-- As long as the tick holds a refresh and its mark stands, what is asked for comes into line and stays
there. -/
theorem isSome_inLine?_after (hw : w.Healthy) (hheld : w.Throughout (·.inFlight? = some r) events)
    {marked : PollKey} (hmark : (w.after events).scheduler.inFlight = some marked) :
    w.scheduler.inFlight = some marked ∧
      ((w.inLine? key).isSome ∨ w.Sometime (fun v e => ∃ now, v.Asks e now key) events →
        ((w.after events).inLine? key).isSome) := by
  induction events generalizing w with
  | nil => exact ⟨hmark, fun h => h.resolve_right id⟩
  | cons e rest ih =>
    obtain ⟨hfirst, hrest⟩ := hheld
    obtain ⟨hnext, hstays⟩ := ih (hw.react e) hrest hmark
    obtain ⟨hbefore, hgoes⟩ := inFlight_of_held hw hfirst hrest.head hnext
    refine ⟨hbefore, ?_⟩
    rintro (hline | ⟨now, hasks⟩ | hlater)
    · exact hstays (.inl (isSome_inLine?_of_held hw hfirst hrest.head hgoes hline))
    · obtain ⟨r', hr'⟩ := inLine_of_asks hw hasks
      exact hstays (.inl (Option.isSome_iff_exists.mpr ⟨r', hr'⟩))
    · exact hstays (.inr hlater)

/-- The poll of a refresh that a tick holds is in line as well if and only if it was asked for since the
tick took it. -/
theorem HoldsSince.requestedAgain_iff {before during : List SessionEvent} {start : Instant}
    (h : w.HoldsSince before start r during) (hw : w.Healthy)
    (hmark : (w.after (before ++ .tick (.begin start) :: during)).scheduler.inFlight = some r.key) :
    (w.after (before ++ .tick (.begin start) :: during)).scheduler.RequestedAgain ↔
      ((w.after before).react (.tick (.begin start))).Sometime
        (fun v e => ∃ now, v.Asks e now r.key) during := by
  rw [Session.requestedAgain_iff (hw.after _) hmark]
  constructor
  · intro hline
    obtain ⟨old, hold⟩ := Option.isSome_iff_exists.mp hline
    exact (h.asked hw hold).2.imp fun v e hasks => ⟨old.nextTry, hasks⟩
  · intro hasked
    rw [after_append] at hmark ⊢
    exact (isSome_inLine?_after ((hw.after before).react _) h.held hmark).2 (.inr hasked)

/-- At every moment of a run, a shutdown gives the number of polls whose refresh is left to do, unless the
poll of the interrupted refresh is in line as well; then it gives one more. Whatever the store is, a shutdown
that succeeds gives that number, and it keeps the polls that were not kept before, each of them once. If a tick
holds a refresh that no shutdown has taken out, its poll is in line if and only if it was asked for since the
tick took it. -/
theorem shutdown_counts_unfinished (config : SchedulerConfig) (events : List SessionEvent) :
    let w := (fresh config).after events
    let count := w.scheduler.unfinished.length + if w.scheduler.RequestedAgain then 1 else 0
    (outcome shutdown w.service).1 = .ok count ∧
      (∀ (store : Store) (n : Nat), (outcome shutdown ⟨store, w.scheduler⟩).1 = .ok n →
        n = count ∧ ∃ added, (outcome shutdown ⟨store, w.scheduler⟩).2.tables.pending =
            store.database.tables.pending ++ added ∧
          added.Perm (w.scheduler.unfinished.filter (· ∉ store.database.tables.pending))) ∧
      ∀ r, w.inFlight? = some r → w.scheduler.inFlight = some r.key →
        ∃ before start during, events = before ++ .tick (.begin start) :: during ∧
          (fresh config).HoldsSince before start r during ∧
          (w.scheduler.RequestedAgain ↔
            (((fresh config).after before).react (.tick (.begin start))).Sometime
              (fun v e => ∃ now, v.Asks e now r.key) during) := by
  intro w count
  have hstart : (fresh config).Healthy := healthy_fresh config
  have hw : w.Healthy := hstart.after events
  refine ⟨?_, fun store n hok => shutdown_saves (s := ⟨store, w.scheduler⟩) hw.sound hok,
    fun r hheld hmark => ?_⟩
  · have hok := count_shutdown hw.coherent hw.sound
    exact hok.trans (congrArg _ (shutdown_saves hw.sound hok).1)
  · obtain ⟨before, start, during, rfl, hholds⟩ := holdsSince_of_inFlight? hstart rfl hheld
    exact ⟨before, start, during, rfl, hholds, hholds.requestedAgain_iff hstart hmark⟩

end

open ZoneHistories

/-- A call is interrupted during which nobody has asked for the poll: its refresh is kept and counted once. -/
theorem shutdown_counts_unfinished_of_lunch :
    let events := requestLunch ++ callLunch .earliest
    let w := (fresh .everySecond).after events
    (outcome shutdown w.service).1 = .ok w.scheduler.unfinished.length ∧
      (∃ added, (outcome shutdown w.service).2.tables.pending = w.tables.pending ++ added ∧
        added.Perm [⟨1, 7⟩]) ∧
      ∃ before start r during, events = before ++ .tick (.begin start) :: during ∧
        (fresh .everySecond).HoldsSince before start r during ∧ r.key = ⟨1, 7⟩ ∧
        ¬ (((fresh .everySecond).after before).react (.tick (.begin start))).Sometime
          (fun v e => ∃ now, v.Asks e now r.key) during := by
  intro events w
  let r : Refresh := ⟨⟨1, 7⟩, .plus .earliest (.ofSeconds 1), .earliest, 0⟩
  obtain ⟨hheld, hmark, hunfinished, hagain, hpending⟩ : w.inFlight? = some r ∧
      w.scheduler.inFlight = some r.key ∧ w.scheduler.unfinished = [⟨1, 7⟩] ∧
      ¬ w.scheduler.RequestedAgain ∧ w.tables.pending = [] := by decide +kernel
  obtain ⟨hok, hsaves, htakes⟩ := shutdown_counts_unfinished .everySecond events
  obtain ⟨-, added, hadded, hperm⟩ := hsaves w.service.store _ hok
  obtain ⟨before, start, during, hevents, hholds, hiff⟩ := htakes r hheld hmark
  refine ⟨?_, ⟨added, hadded, ?_⟩, before, start, r, during, hevents, hholds, rfl, mt hiff.mpr hagain⟩
  · rwa [if_neg hagain] at hok
  · have hnew : w.scheduler.unfinished.filter (· ∉ w.tables.pending) = [⟨1, 7⟩] := by
      simp [hunfinished, hpending]
    exact hnew ▸ hperm

/-- The poll is asked for during the call as well: one refresh is kept, and two are counted. -/
theorem interrupted_counted_twice :
    let w := (fresh .everySecond).after
      (requestLunch ++ callLunch .earliest ++ [.request .earliest ⟨1, 7⟩])
    w.scheduler.unfinished = [⟨1, 7⟩] ∧ (outcome shutdown w.service).1 = .ok 2 ∧
      w.tables.pending = [] ∧ (outcome shutdown w.service).2.tables.pending = [⟨1, 7⟩] := by
  intro w
  have hw : w.Healthy := (healthy_fresh .everySecond).after _
  obtain ⟨hunfinished, hlength, hbefore, hafter⟩ : w.scheduler.unfinished = [⟨1, 7⟩] ∧
      w.scheduler.inFlight.toList.length + w.scheduler.pending = 2 ∧ w.tables.pending = [] ∧
      (outcome shutdown w.service).2.tables.pending = [⟨1, 7⟩] := by decide +kernel
  exact ⟨hunfinished, (count_shutdown hw.coherent hw.sound).trans (congrArg _ hlength), hbefore, hafter⟩

end Session
end PollKeeper
