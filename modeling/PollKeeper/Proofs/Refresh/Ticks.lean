import Mathlib.Data.List.Induction
import PollKeeper.Proofs.Refresh.Effect

/-!
# Ticks along a run

Where the refresh comes from that the running tick holds, and how ticks end.
-/

namespace PollKeeper

open Time Service

private theorem TickStage.refresh?_move [ZoneClocks] {s : Service} (hs : s.store.Coherent)
    {stage : TickStage} {m : TickMove} {r : Refresh} (h : (stage.move s m).2.2.refresh? = some r) :
    stage.refresh? = some r ∨ stage = .resting ∧ ∃ now, m = .begin now := by
  have hmoves := moves hs stage m
  generalize stage.move s m = o at hmoves h
  cases hmoves with
  | takes now => exact .inr ⟨rfl, now, rfl⟩
  | calls | delivers | ignored => exact .inl h
  | idle | panics | fails | acknowledges => cases h

namespace Session

variable {w : Session} {e : SessionEvent} {r : Refresh}

theorem inFlight?_of_resting (h : w.tick = .resting) : w.inFlight? = none := by
  rw [inFlight?, h]
  rfl

variable [ZoneClocks]

/-- A tick that begins at an instant takes a refresh off the line. -/
structure Takes (w : Session) (now : Instant) (r : Refresh) : Prop where
  resting : w.tick = .resting
  queued : r ∈ w.scheduler.queue.toList
  reachable : w.scheduler.isReachable r.key.guild = true
  due : r.nextTry ≤ now
  inTime : ¬ r.timeout < now
  taken : (w.react (.tick (.begin now))).inFlight? = some r

/-- The stage of the tick changes by its own moves, or because a shutdown or a restart ends it. -/
theorem tick_react (w : Session) (e : SessionEvent) :
    (∃ m, e = .tick m) ∨ (w.react e).tick = w.tick ∨
      (w.react e).tick = .resting ∧ ((∃ aborts, e = .shutdown aborts) ∨ e = .restart) := by
  cases e with
  | tick m => exact .inl ⟨m, rfl⟩
  | shutdown aborts =>
    cases aborts with
    | true => exact .inr (.inr ⟨rfl, .inl ⟨true, rfl⟩⟩)
    | false => exact .inr (.inl rfl)
  | advanceSweep i now =>
    refine .inr (.inl ?_)
    simp only [react]
    split <;> rfl
  | restart => exact .inr (.inr ⟨rfl, .inr rfl⟩)
  | _ => exact .inr (.inl rfl)

theorem inFlight?_begin (h : w.tick = .resting) (now : Instant) :
    (w.react (.tick (.begin now))).inFlight? = (w.scheduler.take now).1 := by
  obtain ⟨s, stage, sweeps⟩ := w
  obtain rfl : stage = .resting := h
  simp only [react, TickStage.move_begin, scheduler]
  cases (s.scheduler.take now).1 <;> rfl

theorem takes_of_begin (hw : w.Healthy) (hresting : w.tick = .resting) {now : Instant}
    (h : (w.react (.tick (.begin now))).inFlight? = some r) : w.Takes now r := by
  have hnext := (inFlight?_begin hresting now).symm.trans h
  rw [Scheduler.take_fst] at hnext
  obtain ⟨hget, -, htime, hdue, hreachable⟩ := RefreshQueue.popEligible_eq_some hw.sound hnext
  exact ⟨hresting, (hw.sound.get?_eq_some.mp hget).1, hreachable, hdue, htime, h⟩

namespace Takes

variable {now : Instant}

theorem inLine (h : w.Takes now r) (hw : w.Healthy) : w.inLine? r.key = some r :=
  hw.sound.get?_eq_some.mpr ⟨h.queued, rfl⟩

/-- Nothing of the poll stays in line. -/
theorem left (h : w.Takes now r) (hw : w.Healthy) :
    (w.react (.tick (.begin now))).inLine? r.key = none := by
  have hnext := (inFlight?_begin h.resting now).symm.trans h.taken
  rw [Scheduler.take_fst] at hnext
  obtain ⟨-, hleft, -⟩ := RefreshQueue.popEligible_eq_some hw.sound hnext
  rw [inLine?, scheduler, service_begin h.resting, Scheduler.queue_take]
  exact hleft

end Takes

/-- The refresh that a tick holds was held before, or the tick has just taken it. -/
theorem inFlight?_react (hw : w.Healthy) (h : (w.react e).inFlight? = some r) :
    w.inFlight? = some r ∨ ∃ now, e = .tick (.begin now) ∧ w.Takes now r := by
  rcases w.tick_react e with ⟨m, rfl⟩ | hsame | ⟨hresting, -⟩
  · rcases TickStage.refresh?_move hw.coherent h with hold | ⟨hresting, now, rfl⟩
    · exact .inl hold
    · exact .inr ⟨now, rfl, takes_of_begin hw hresting h⟩
  · rw [inFlight?, hsame] at h
    exact .inl h
  · cases (inFlight?_of_resting hresting).symm.trans h

/-- After some events of a run the tick takes a refresh off the line, and then it holds it. -/
structure HoldsSince (w : Session) (before : List SessionEvent) (start : Instant) (r : Refresh)
    (during : List SessionEvent) : Prop where
  takes : (w.after before).Takes start r
  held : ((w.after before).react (.tick (.begin start))).Throughout (·.inFlight? = some r) during

/-- A refresh that is held was taken by a tick that has not ended since. -/
theorem holdsSince_of_inFlight? (hw : w.Healthy) (hstart : w.inFlight? = none)
    {events : List SessionEvent} (h : (w.after events).inFlight? = some r) :
    ∃ before start during, events = before ++ .tick (.begin start) :: during ∧
      w.HoldsSince before start r during := by
  induction events using List.reverseRecOn with
  | nil => cases hstart.symm.trans h
  | append_singleton events e ih =>
    rw [after_concat] at h
    rcases inFlight?_react (hw.after events) h with hold | ⟨now, rfl, htakes⟩
    · obtain ⟨before, start, during, rfl, htakes, hheld⟩ := ih hold
      refine ⟨before, start, during ++ [e], by simp, htakes, throughout_concat.mpr ⟨hheld, ?_⟩⟩
      rw [after_append] at h
      exact h
    · exact ⟨events, now, [], rfl, htakes, htakes.taken⟩

inductive Ends (w : Session) : SessionEvent → TickOutcome → Prop where
  | idle (now : Instant) (hresting : w.tick = .resting) (hnone : (w.scheduler.take now).1 = none) :
      w.Ends (.tick (.begin now)) .idle
  | delivered (now : Instant) {a : Attempt} (htaken : w.tick = .acknowledging a) :
      w.Ends (.tick (.acknowledge now)) .delivered
  | failed {e : SessionEvent} {r : Refresh} {now : Instant} {outcome : TickOutcome}
      (hheld : w.inFlight? = some r) (hclock : e.failsAt? = some now)
      (hsettles : w.scheduler.Settles now r outcome (w.react e).scheduler.queue) : w.Ends e outcome

theorem ends_of_report (hw : w.Healthy) {outcome : TickOutcome} (h : w.report e = .ended outcome) :
    w.Ends e outcome ∧ (w.react e).tick = .resting := by
  cases e with
  | tick m =>
    obtain ⟨s, stage, sweeps⟩ := w
    have hmoves := TickStage.moves hw.coherent stage m
    have hreport : (stage.move s m).1 = .ended outcome := h
    have hreact := react_tick s stage sweeps m
    generalize stage.move s m = o at hmoves hreport hreact
    cases hmoves with
    | idle now hnone =>
      cases hreport
      exact ⟨.idle now rfl hnone, congrArg tick hreact⟩
    | fails hheld hclock _ _ hsettles =>
      cases hreport
      exact ⟨.failed hheld hclock (hreact ▸ hsettles), congrArg tick hreact⟩
    | acknowledges now =>
      cases hreport
      exact ⟨.delivered now rfl, congrArg tick hreact⟩
    | takes | calls | panics | delivers | ignored => cases hreport
  | _ => cases h

theorem report_ne_ended (hw : w.Healthy) (hheld : (w.react e).inFlight? = some r) (outcome : TickOutcome) :
    w.report e ≠ .ended outcome := by
  intro hended
  cases (inFlight?_of_resting (ends_of_report hw hended).2).symm.trans hheld

def requestLunch : List SessionEvent :=
  insertLunch ++
    [.client (.release ⟨1, 0⟩) rfl, .reachable .earliest 1, .request .earliest ⟨1, 7⟩]

end Session
end PollKeeper
