import PollKeeper.Proofs.Refresh.Session

/-!
# What events do to a session

Each event changes the notes of the polls as `Tables.Becomes` says, and a refresh in line stays as it is,
leaves the line, or comes into it because it was asked for or has failed.
-/

namespace PollKeeper

open Time Service

namespace Service

variable {α β : Type} {s s' s'' : Service} {now : Instant}

theorem outcome_bind_of_ok {a : ServiceAction α} {x : α} (f : α → ServiceAction β)
    (h : (outcome a s).1 = .ok x) : outcome (a >>= f) s = outcome (f x) (outcome a s).2 := by
  rw [outcome_bind]
  generalize outcome a s = o at h
  obtain ⟨result, s'⟩ := o
  obtain rfl : result = .ok x := h
  rfl

theorem outcome_bind_of_error {a : ServiceAction α} {e : StoreError} (f : α → ServiceAction β)
    (h : (outcome a s).1 = .error e) : outcome (a >>= f) s = (.error e, (outcome a s).2) := by
  rw [outcome_bind]
  generalize outcome a s = o at h
  obtain ⟨result, s'⟩ := o
  obtain rfl : result = .error e := h
  rfl

/-- A part of a sweep acknowledges edits, notes final refreshes and asks for refreshes. -/
structure Sweeps (s : Service) (now : Instant) (seen : List EditStamp) (noted asks : List PollKey)
    (s' : Service) : Prop where
  holds : Holds s' ((s.tables.markSeen seen).2.markFinal noted).2
  queue : s'.scheduler.queue =
    s.scheduler.queue.askAll (now.plus s.scheduler.config.updateTimeout) now asks
  config : s'.scheduler.config = s.scheduler.config

theorem sweeps_of_holds (h : Holds s' s.tables) (hscheduler : s'.scheduler = s.scheduler) :
    s.Sweeps now [] [] [] s' :=
  ⟨h, congrArg Scheduler.queue hscheduler, congrArg Scheduler.config hscheduler⟩

theorem Sweeps.trans {seen more : List EditStamp} {noted asks rest : List PollKey}
    (h : s.Sweeps now seen [] asks s') (h' : s'.Sweeps now more noted rest s'') :
    s.Sweeps now (seen ++ more) noted (asks ++ rest) s'' := by
  have htables : s'.tables = (s.tables.markSeen seen).2 := h.holds.tables
  refine ⟨⟨h'.holds.coherent, ?_⟩, ?_, h'.config.trans h.config⟩
  · rw [h'.holds.tables, htables]
    simp only [Tables.markSeen, Tables.countChanges_snd, List.foldl_append]
  · rw [h'.queue, h.queue, h.config, RefreshQueue.askAll_append]

theorem sweeps_enqueueAll (hs : s.store.Coherent) (now : Instant) (keys : List PollKey) :
    s.Sweeps now [] [] keys (outcome (enqueueAll now keys) s).2 := by
  have hscheduler : (outcome (enqueueAll now keys) s).2.scheduler = s.scheduler.enqueueAll now keys := rfl
  refine ⟨⟨hs, rfl⟩, ?_, ?_⟩ <;> rw [hscheduler, Scheduler.enqueueAll_eq_askAll]

theorem sweeps_finishUnseen (hs : s.store.Coherent) (now started : Instant) (found : List PollEdit) :
    (outcome (finishUnseen started found) s).1 = .ok found.length ∧
      s.Sweeps now (found.map (·.toStamp)) [] [] (outcome (finishUnseen started found) s).2 := by
  obtain ⟨hresult, hholds, hqueue, -⟩ := finishUnseen_eq hs started found
  refine ⟨hresult, hholds, hqueue, ?_⟩
  simp only [finishUnseen, outcome_bind, outcome_onStore]
  rw [((Store.serves_markSeen found).leaves hs).result]
  rfl

theorem sweeps_finishEnded (hs : s.store.Coherent) (now : Instant) (keys : List PollKey) :
    (outcome (finishEnded keys) s).1 = .ok keys.length ∧
      s.Sweeps now [] keys [] (outcome (finishEnded keys) s).2 := by
  obtain ⟨hholds, hqueue, -⟩ := finishEnded_eq hs keys
  simp only [finishEnded, outcome_bind, outcome_onStore] at hholds hqueue ⊢
  rw [((Store.serves_markFinal keys).leaves hs).result] at hholds hqueue ⊢
  exact ⟨rfl, hholds, hqueue, rfl⟩

theorem sweeps_editedSince (hs : s.store.Coherent) (now cutoff : Instant) :
    s.Sweeps now [] [] [] (outcome (onStore (Store.editedSince cutoff)) s).2 := by
  have hleaves := (Store.serves_editedSince cutoff).leaves_reading hs
  rw [outcome_onStore]
  exact sweeps_of_holds (holds_of_leaves hleaves _) rfl

theorem sweeps_endedUnrefreshed (hs : s.store.Coherent) (now started : Instant) :
    (outcome (onStore (Store.endedUnrefreshed started)) s).1 =
        .ok (s.tables.awaitingFinal started.ceilSeconds) ∧
      s.Sweeps now [] [] [] (outcome (onStore (Store.endedUnrefreshed started)) s).2 := by
  have hleaves := (Serves.look fun t => .ok (t.awaitingFinal started.ceilSeconds)).leaves_reading hs
  have hresult : ((Store.endedUnrefreshed started).outcome s.store).1 =
      .ok (s.tables.awaitingFinal started.ceilSeconds) := hleaves.result
  rw [outcome_onStore]
  exact ⟨hresult, sweeps_of_holds (holds_of_leaves hleaves _) rfl⟩

theorem endedPolls_eq (hs : s.store.Coherent) (now : Instant) :
    s.endedPolls now = s.tables.awaitingFinal now.ceilSeconds := by
  rw [endedPolls, finds, (sweeps_endedUnrefreshed hs now now).1]

theorem sweeps_sweepUnseen (hs : s.store.Coherent) (now : Instant) :
    ∃ seen, s.Sweeps now seen [] (s.unseenEdits.map (·.key)) (outcome (sweepUnseen now) s).2 := by
  have hquery := sweeps_editedSince hs now s.scheduler.editCutoff
  have hstart : outcome (sweepUnseen now) s =
      outcome (onStore (Store.editedSince s.scheduler.editCutoff) >>= fun found => do
        enqueueAll now (found.map (·.key))
        finishUnseen now found) s := rfl
  simp only [unseenEdits, finds, hstart]
  cases hfound : (outcome (onStore (Store.editedSince s.scheduler.editCutoff)) s).1 with
  | error e =>
    rw [outcome_bind_of_error _ hfound]
    exact ⟨[], hquery⟩
  | ok found =>
    have hask := sweeps_enqueueAll hquery.holds.coherent now (found.map (·.key))
    have hfinish := (sweeps_finishUnseen hask.holds.coherent now now found).2
    have hall := (hquery.trans hask).trans hfinish
    rw [outcome_bind_of_ok _ hfound]
    rw [List.nil_append, List.append_nil] at hall
    exact ⟨_, hall⟩

theorem sweeps_sweepEnded (hs : s.store.Coherent) (now : Instant) :
    (∃ n, (outcome (sweepEnded now) s).1 = .ok n) ∧
      s.Sweeps now [] (s.endedPolls now) (s.endedPolls now) (outcome (sweepEnded now) s).2 := by
  obtain ⟨hfound, hquery⟩ := sweeps_endedUnrefreshed hs now now
  have hask := sweeps_enqueueAll hquery.holds.coherent now (s.tables.awaitingFinal now.ceilSeconds)
  obtain ⟨hok, hfinish⟩ := sweeps_finishEnded hask.holds.coherent now
    (s.tables.awaitingFinal now.ceilSeconds)
  have hall := (hquery.trans hask).trans hfinish
  simp only [List.nil_append, List.append_nil] at hall
  rw [endedPolls_eq hs, sweepEnded, outcome_bind_of_ok _ hfound]
  exact ⟨⟨_, hok⟩, hall⟩

/-- A sweep asks for the final refreshes of the polls that it lists after it has acknowledged the unseen
edits, unless it fails before. -/
theorem sweeps_sweepEdits (hs : s.store.Coherent) (now : Instant) :
    ∃ seen, s.Sweeps now seen (s.finalRequests now)
      (s.unseenEdits.map (·.key) ++ s.finalRequests now) (outcome (sweepEdits now) s).2 := by
  obtain ⟨seen, hunseen⟩ := sweeps_sweepUnseen hs now
  simp only [sweepEdits, finalRequests, finds]
  cases hfound : (outcome (sweepUnseen now) s).1 with
  | error e =>
    rw [outcome_bind_of_error _ hfound, outcome_bind_of_error _ hfound, List.append_nil]
    exact ⟨seen, hunseen⟩
  | ok n =>
    obtain ⟨⟨m, hok⟩, hended⟩ := sweeps_sweepEnded hunseen.holds.coherent now
    have hall := hunseen.trans hended
    rw [outcome_bind_of_ok _ hfound, outcome_bind_of_ok _ hfound, outcome_bind_of_ok _ hok]
    rw [List.append_nil] at hall
    exact ⟨seen, hall⟩

/-- A sweep that succeeds asks for the final refresh of just the polls that have ended and await it. -/
theorem mem_finalRequests (hs : s.store.Coherent) (hkeys : (s.tables.polls.map (·.key)).Nodup)
    {key : PollKey} :
    key ∈ s.finalRequests now ↔ (outcome (sweepEdits now) s).1.isOk ∧
      ∃ r, s.tables.row? key = some r ∧ r.finalRefreshed = 0 ∧ now.IsPast r.endAt := by
  obtain ⟨seen, hunseen⟩ := sweeps_sweepUnseen hs now
  simp only [sweepEdits, finalRequests, finds]
  cases hfound : (outcome (sweepUnseen now) s).1 with
  | error e =>
    rw [outcome_bind_of_error _ hfound, outcome_bind_of_error _ hfound]
    simp [Except.isOk, Except.toBool]
  | ok n =>
    have hs₁ := hunseen.holds.coherent
    obtain ⟨⟨m, hok⟩, -⟩ := sweeps_sweepEnded hs₁ now
    have htables : (outcome (sweepUnseen now) s).2.tables = (s.tables.markSeen seen).2 :=
      hunseen.holds.tables
    have hkeys₁ : ((s.tables.markSeen seen).2.polls.map (·.key)).Nodup := by
      rwa [(Tables.sameContent_markSeen s.tables seen).keys]
    have hawaits : ∀ r : PollRow, (r.afterSeen seen).finalRefreshed = r.finalRefreshed ∧
        (r.afterSeen seen).endAt = r.endAt := by
      intro r
      obtain ⟨note, hnote, -⟩ := r.afterSeen_eq seen
      rw [hnote]
      exact ⟨rfl, rfl⟩
    rw [outcome_bind_of_ok _ hfound, outcome_bind_of_ok _ hfound, outcome_bind_of_ok _ hok]
    simp [(sweeps_endedUnrefreshed hs₁ now now).1, htables, Tables.mem_awaitingFinal hkeys₁,
      Tables.row?_markSeen, hawaits, Except.isOk, Except.toBool]

private theorem config_sweepExpired (s : Service) (now : Instant) :
    (outcome (sweepExpired now) s).2.scheduler.config = s.scheduler.config :=
  have hunswept : Unswept (·.config) := ⟨fun _ _ => rfl, fun _ _ _ => rfl⟩
  hunswept.sweepExpired now s

private theorem config_shutdown (s : Service) :
    (outcome shutdown s).2.scheduler.config = s.scheduler.config := by
  simp only [shutdown, outcome_bind, outcome_onScheduler, outcome_onStore]
  generalize StoreAction.outcome _ _ = o
  rcases o with ⟨_ | _, _⟩ <;> rfl

end Service

namespace SweepPhase

variable {s : Service}

theorem sweeps_start (hs : s.store.Coherent) (now : Instant) :
    s.Sweeps now [] [] [] (start s now).2 := by
  have hquery := sweeps_editedSince hs now s.scheduler.editCutoff
  simp only [start]
  generalize outcome (onStore (Store.editedSince s.scheduler.editCutoff)) s = o at hquery
  obtain ⟨_ | found, s₁⟩ := o <;> exact hquery

theorem sweeps_advance (hs : s.store.Coherent) (now : Instant) (p : SweepPhase) :
    ∃ seen, s.Sweeps now seen p.notes p.asks (p.advance s now).2 := by
  cases p with
  | edited started found => exact ⟨[], sweeps_enqueueAll hs now _⟩
  | askedEdited started found =>
    have hfinish := (sweeps_finishUnseen hs now started found).2
    refine ⟨found.map (·.toStamp), ?_⟩
    simp only [advance]
    generalize outcome (finishUnseen started found) s = o at hfinish
    obtain ⟨_ | n, s₁⟩ := o <;> exact hfinish
  | acknowledged started =>
    have hquery := (sweeps_endedUnrefreshed hs now started).2
    refine ⟨[], ?_⟩
    simp only [advance]
    generalize outcome (onStore (Store.endedUnrefreshed started)) s = o at hquery
    obtain ⟨_ | keys, s₁⟩ := o <;> exact hquery
  | ended found => exact ⟨[], sweeps_enqueueAll hs now found⟩
  | askedEnded found => exact ⟨[], (sweeps_finishEnded hs now found).2⟩

theorem mem_listed_advance {p p' : SweepPhase} {now : Instant} {key : PollKey}
    (h : (p.advance s now).1 = some p') (hkey : key ∈ p'.listed) :
    key ∈ p.listed ∨ ∃ started, p = .acknowledged started ∧ key ∈ s.endedPolls started := by
  cases p with
  | edited started found =>
    cases h
    cases hkey
  | askedEdited started found =>
    simp only [advance] at h
    split at h
    · cases h
      cases hkey
    · cases h
  | acknowledged started =>
    refine .inr ⟨started, rfl, ?_⟩
    simp only [advance] at h
    simp only [endedPolls, finds]
    split at h
    · next found s₁ hquery =>
      cases h
      rw [hquery]
      exact hkey
    · cases h
  | ended found =>
    cases h
    exact .inl hkey
  | askedEnded found => cases h

end SweepPhase

namespace Session

/-- What holds at every moment of a run. -/
structure Healthy (w : Session) : Prop where
  coherent : w.service.store.Coherent
  distinct : (w.tables.polls.map (·.key)).Nodup
  sound : w.scheduler.queue.Sound

theorem healthy_fresh (config : SchedulerConfig) : (fresh config).Healthy :=
  ⟨Store.coherent_fresh, .nil, RefreshQueue.sound_empty⟩

end Session

variable [ZoneClocks]

namespace Service

variable {s : Service}

/-- What is read for a refresh: the poll as it is stored, under the lock of its guild. -/
structure ReadsNow (s : Service) (r : Refresh) (a : Attempt) (p : Poll) : Prop where
  refresh : a.refresh = r
  read : s.store.refreshed r.key = .ok (p, a.edit)
  posting : a.posting = ⟨r.key.guild, p.channel, r.key.poll, a.posting.text⟩
  text : p.message? = some a.posting.text

theorem prepare_settles (hs : s.store.Coherent) (now : Instant) (r : Refresh) :
    Holds (s.prepare now r).2 s.tables ∧
      (s.prepare now r).2.scheduler.config = s.scheduler.config ∧
      match (s.prepare now r).1 with
      | .finished outcome => s.scheduler.Settles now r outcome (s.prepare now r).2.scheduler.queue
      | .panicked => (s.prepare now r).2.scheduler = s.scheduler
      | .posting a => (s.prepare now r).2.scheduler = s.scheduler ∧ ∃ p, s.ReadsNow r a p := by
  have hleaves := Store.leaves_refreshable hs r.key
  simp only [prepare]
  rw [hleaves.result]
  cases hread : s.store.refreshed r.key with
  | error e =>
    exact ⟨holds_of_leaves hleaves _, s.scheduler.config_settle now r (.error (.store e)),
      s.scheduler.settles_settle now r (.store e)⟩
  | ok found =>
    obtain ⟨p, edit⟩ := found
    cases htext : p.message? with
    | none =>
      simp only [htext]
      exact ⟨holds_of_leaves hleaves _, trivial, trivial⟩
    | some text =>
      simp only [htext]
      exact ⟨holds_of_leaves hleaves _, trivial, trivial, p, rfl, hread, rfl, htext⟩

end Service

namespace TickStage

theorem move_begin (s : Service) (now : Instant) :
    resting.move s (.begin now) =
      match (s.scheduler.take now).1 with
      | none => (.ended .idle, { s with scheduler := (s.scheduler.take now).2 }, resting)
      | some r => (.silent, { s with scheduler := (s.scheduler.take now).2 }, reading r) := rfl

theorem move_read (s : Service) (now : Instant) (r : Refresh) :
    (reading r).move s (.read now) =
      match (s.prepare now r).1 with
      | .finished outcome => (.ended outcome, (s.prepare now r).2, resting)
      | .panicked => (.panicked, (s.prepare now r).2, resting)
      | .posting a => (.called a, (s.prepare now r).2, posting a) := by
  simp only [move]
  generalize s.prepare now r = o
  obtain ⟨_ | _ | _, _⟩ := o <;> rfl

inductive Moves (s : Service) : TickStage → TickMove → TickReport × Service × TickStage → Prop where
  | idle (now : Instant) (hnone : (s.scheduler.take now).1 = none) :
      Moves s resting (.begin now)
        (.ended .idle, { s with scheduler := (s.scheduler.take now).2 }, resting)
  | takes (now : Instant) {r : Refresh} (hnext : (s.scheduler.take now).1 = some r) :
      Moves s resting (.begin now)
        (.silent, { s with scheduler := (s.scheduler.take now).2 }, reading r)
  | calls (now : Instant) {a : Attempt} {p : Poll} {s' : Service} (hreads : s.ReadsNow a.refresh a p)
      (hholds : Holds s' s.tables) (hscheduler : s'.scheduler = s.scheduler) :
      Moves s (reading a.refresh) (.read now) (.called a, s', posting a)
  | panics (now : Instant) {r : Refresh} {s' : Service} (hholds : Holds s' s.tables)
      (hscheduler : s'.scheduler = s.scheduler) :
      Moves s (reading r) (.read now) (.panicked, s', resting)
  | fails {stage : TickStage} {m : TickMove} {r : Refresh} {now : Instant} {outcome : TickOutcome}
      {s' : Service} (hheld : stage.refresh? = some r)
      (hclock : (SessionEvent.tick m).failsAt? = some now) (hholds : Holds s' s.tables)
      (hconfig : s'.scheduler.config = s.scheduler.config)
      (hsettles : s.scheduler.Settles now r outcome s'.scheduler.queue) :
      Moves s stage m (.ended outcome, s', resting)
  | delivers {a : Attempt} : Moves s (posting a) .deliver (.silent, s, acknowledging a)
  | acknowledges (now : Instant) {a : Attempt} {s' : Service}
      (hsweeps : s.Sweeps now [a.edit.toStamp] [] [] s') :
      Moves s (acknowledging a) (.acknowledge now) (.ended .delivered, s', resting)
  | ignored {stage : TickStage} {m : TickMove} : Moves s stage m (.silent, s, stage)

private theorem moves_begin (s : Service) (now : Instant) :
    Moves s resting (.begin now) (resting.move s (.begin now)) := by
  rw [move_begin]
  cases hnext : (s.scheduler.take now).1 with
  | none => exact .idle now hnext
  | some r => exact .takes now hnext

private theorem moves_read {s : Service} (hs : s.store.Coherent) (now : Instant) (r : Refresh) :
    Moves s (reading r) (.read now) ((reading r).move s (.read now)) := by
  obtain ⟨hholds, hconfig, hend⟩ := prepare_settles hs now r
  rw [move_read]
  cases hstart : (s.prepare now r).1 with
  | finished outcome =>
    rw [hstart] at hend
    exact .fails rfl rfl hholds hconfig hend
  | panicked =>
    rw [hstart] at hend
    exact .panics now hholds hend
  | posting a =>
    rw [hstart] at hend
    obtain ⟨hscheduler, p, hreads⟩ := hend
    obtain rfl := hreads.refresh
    exact .calls now hreads hholds hscheduler

private theorem moves_refuse {s : Service} (hs : s.store.Coherent) (a : Attempt) (now : Instant)
    (e : GatewayError) : Moves s (posting a) (.refuse now e) ((posting a).move s (.refuse now e)) :=
  .fails rfl rfl ⟨hs, rfl⟩ (s.scheduler.config_settle now a.refresh (.error (.gateway e)))
    (s.scheduler.settles_settle now a.refresh (.gateway e))

private theorem moves_acknowledge {s : Service} (hs : s.store.Coherent) (a : Attempt) (now : Instant) :
    Moves s (acknowledging a) (.acknowledge now) ((acknowledging a).move s (.acknowledge now)) := by
  obtain ⟨hholds, -, hqueue⟩ := finishTick_ok hs now a
  exact .acknowledges now ⟨hholds, hqueue, rfl⟩

theorem moves {s : Service} (hs : s.store.Coherent) (stage : TickStage) (m : TickMove) :
    Moves s stage m (stage.move s m) := by
  cases stage with
  | resting =>
    cases m with
    | begin now => exact moves_begin s now
    | _ => exact .ignored
  | reading r =>
    cases m with
    | read now => exact moves_read hs now r
    | _ => exact .ignored
  | posting a =>
    cases m with
    | refuse now e => exact moves_refuse hs a now e
    | deliver => exact .delivers
    | _ => exact .ignored
  | acknowledging a =>
    cases m with
    | acknowledge now => exact moves_acknowledge hs a now
    | _ => exact .ignored

end TickStage

namespace Session

variable {w w' : Session} {e : SessionEvent}

inductive TakesOut (w : Session) (r : Refresh) : SessionEvent → Prop where
  | begun (now : Instant) (hresting : w.tick = .resting) (hnext : (w.scheduler.take now).1 = some r) :
      w.TakesOut r (.tick (.begin now))
  | expired (now : Instant) (hlate : r.timeout < now) : w.TakesOut r (.tick (.begin now))
  | drained (aborts : Bool) : w.TakesOut r (.shutdown aborts)
  | replaced : w.TakesOut r .restart

/-- What an event makes of the line: a refresh that is in line before and afterwards is the same one, one
that leaves it is taken out, and one that comes into line was asked for, or has failed in the tick that
held it. -/
structure LineStep (w : Session) (e : SessionEvent) (q : RefreshQueue) : Prop where
  sound : q.Sound
  stays : ∀ key r r', w.inLine? key = some r → q.get? key = some r' → r.Stays r'
  leaves : ∀ key r, w.inLine? key = some r → q.get? key = none → w.TakesOut r e
  comes : ∀ key r', w.inLine? key = none → q.get? key = some r' →
    w.Asks e r'.nextTry key ∧ r'.attempts = 0 ∨
      ∃ (r : Refresh) (now : Instant), w.inFlight? = some r ∧
        r' = r.again (now.plus w.scheduler.config.retryPause) ∧
        w.report e = .ended (.retrying r'.attempts)

structure Effect (w : Session) (e : SessionEvent) (w' : Session) : Prop where
  coherent : w'.service.store.Coherent
  tables : w.tables.Becomes (w.noted e) w'.tables
  config : w'.scheduler.config = w.scheduler.config
  line : w.LineStep e w'.scheduler.queue

theorem Effect.healthy (he : w.Effect e w') (h : w.Healthy) : w'.Healthy :=
  ⟨he.coherent, he.tables.distinct h.distinct, he.line.sound⟩

theorem lineStep_askAll (h : w.Healthy) {timeout now : Instant} {keys : List PollKey}
    (hasks : ∀ key ∈ keys, w.Asks e now key) :
    w.LineStep e (w.scheduler.queue.askAll timeout now keys) := by
  refine ⟨RefreshQueue.sound_askAll h.sound timeout now keys, fun key r r' hr hr' => ?_,
    fun key r hr hnone => ?_, fun key r' hnone hr' => .inl ?_⟩
  · obtain ⟨s, hs, hstays⟩ := RefreshQueue.stays_askAll timeout now keys hr
    obtain rfl := Option.some.inj (hs.symm.trans hr')
    exact hstays
  · obtain ⟨s, hs, -⟩ := RefreshQueue.stays_askAll timeout now keys hr
    cases hs.symm.trans hnone
  · obtain ⟨hmem, rfl, hattempts⟩ := RefreshQueue.new_askAll hnone hr'
    exact ⟨hasks key hmem, hattempts⟩

theorem lineStep_same (h : w.Healthy) : w.LineStep e w.scheduler.queue := by
  have hnone : w.LineStep e (w.scheduler.queue.askAll .earliest .earliest []) :=
    lineStep_askAll h (by simp)
  exact hnone

theorem lineStep_empty (hleaves : ∀ r, w.TakesOut r e) : w.LineStep e .empty :=
  ⟨RefreshQueue.sound_empty, fun _ _ _ _ h => (by cases h), fun _ r _ _ => hleaves r,
    fun _ _ _ h => (by cases h)⟩

private theorem lineStep_take (h : w.Healthy) (hresting : w.tick = .resting) (now : Instant) :
    w.LineStep (.tick (.begin now)) (w.scheduler.take now).2.queue := by
  have hsplits := RefreshQueue.splits_popEligible h.sound now w.scheduler.isReachable
  rw [w.scheduler.queue_take now]
  refine ⟨hsplits.sound, fun key r r' hr hr' => ?_, fun key r hr hnone => ?_, fun key r' hnone hr' => ?_⟩
  · cases hr.symm.trans (RefreshQueue.get?_of_popEligible h.sound hr')
    exact .refl r
  · obtain ⟨hmem, hkey⟩ := h.sound.get?_eq_some.mp hr
    rcases hsplits.mem_of_mem hmem with hstays | hnext | hexpired
    · cases hnone.symm.trans (hsplits.sound.get?_eq_some.mpr ⟨hstays, hkey⟩)
    · exact .begun now hresting ((w.scheduler.take_fst now).trans hnext)
    · rw [hsplits.expired] at hexpired
      exact .expired now (of_decide_eq_true (List.mem_filter.mp hexpired).2)
  · cases hnone.symm.trans (RefreshQueue.get?_of_popEligible h.sound hr')

private theorem lineStep_settle (h : w.Healthy) {now : Instant} {r : Refresh} {outcome : TickOutcome}
    {q : RefreshQueue} (hheld : w.inFlight? = some r) (hsettles : w.scheduler.Settles now r outcome q)
    (hreport : w.report e = .ended outcome) : w.LineStep e q := by
  cases hsettles with
  | missing | exhausted => exact lineStep_same h
  | retrying =>
    refine ⟨RefreshQueue.sound_upsert h.sound _, fun key s s' hs hs' => ?_, fun key s hs hnone => ?_,
      fun key s' hnone hs' => .inr ⟨r, now, hheld, ?_⟩⟩
    · obtain ⟨u, hu, hstays⟩ := RefreshQueue.stays_upsert (r.again _) hs
      cases hu.symm.trans hs'
      exact hstays
    · obtain ⟨u, hu, -⟩ := RefreshQueue.stays_upsert (r.again _) hs
      cases hu.symm.trans hnone
    · rw [RefreshQueue.get?_upsert] at hs'
      have hnone' : w.scheduler.queue.get? key = none := hnone
      rw [hnone'] at hs'
      split at hs'
      · cases hs'
        exact ⟨rfl, hreport⟩
      · cases hs'

theorem effect_of_sweeps (h : w.Healthy) {now : Instant} {seen : List EditStamp} {noted asks : List PollKey}
    (hsweeps : w.service.Sweeps now seen noted asks w'.service) (hnoted : w.noted e = noted)
    (hasks : ∀ key ∈ asks, w.Asks e now key) : w.Effect e w' where
  coherent := hsweeps.holds.coherent
  tables := by
    have htables : w'.tables = _ := hsweeps.holds.tables
    rw [hnoted, htables]
    exact w.tables.becomes_notes seen noted
  config := hsweeps.config
  line := by
    have hqueue : w'.scheduler.queue = _ := hsweeps.queue
    rw [hqueue]
    exact lineStep_askAll h hasks

theorem effect_of_holds (hholds : Holds w'.service w.tables)
    (hconfig : w'.scheduler.config = w.scheduler.config) (hnoted : w.noted e = [])
    (hline : w.LineStep e w'.scheduler.queue) : w.Effect e w' where
  coherent := hholds.coherent
  tables := by
    have htables : w'.tables = w.tables := hholds.tables
    rw [hnoted, htables]
    exact .refl _
  config := hconfig
  line := hline

theorem effect_of_service (h : w.Healthy) (hservice : w'.service = w.service)
    (hnoted : w.noted e = []) : w.Effect e w' := by
  have hscheduler : w'.scheduler = w.scheduler := congrArg Service.scheduler hservice
  refine effect_of_holds ⟨hservice ▸ h.coherent, hservice ▸ rfl⟩ (by rw [hscheduler]) hnoted ?_
  rw [hscheduler]
  exact lineStep_same h

theorem react_tick (s : Service) (stage : TickStage) (sweeps : Nat → Option SweepPhase) (m : TickMove) :
    react ⟨s, stage, sweeps⟩ (.tick m) = ⟨(stage.move s m).2.1, (stage.move s m).2.2, sweeps⟩ := rfl

theorem react_advanceSweep {i : Nat} {p : SweepPhase} (hp : w.sweeps i = some p) (now : Instant) :
    w.react (.advanceSweep i now) = w.withSweep i (p.advance w.service now) := by
  simp only [react, hp]

theorem react_advanceSweep_of_none {i : Nat} (hp : w.sweeps i = none) (now : Instant) :
    w.react (.advanceSweep i now) = w := by
  simp only [react, hp]

theorem service_begin (h : w.tick = .resting) (now : Instant) :
    (w.react (.tick (.begin now))).service =
      { w.service with scheduler := (w.scheduler.take now).2 } := by
  obtain ⟨s, stage, sweeps⟩ := w
  obtain rfl : stage = .resting := h
  simp only [react, TickStage.move_begin, scheduler]
  cases (s.scheduler.take now).1 <;> rfl

private theorem effect_tick (h : w.Healthy) (m : TickMove) : w.Effect (.tick m) (w.react (.tick m)) := by
  obtain ⟨s, stage, sweeps⟩ := w
  have hmoves := TickStage.moves h.coherent stage m
  have hreport : report ⟨s, stage, sweeps⟩ (.tick m) = (stage.move s m).1 := rfl
  rw [react_tick]
  generalize stage.move s m = o at hmoves hreport
  cases hmoves with
  | idle now | takes now =>
    exact effect_of_holds ⟨h.coherent, rfl⟩ (s.scheduler.config_take now) rfl (lineStep_take h rfl now)
  | calls now _ hholds hscheduler | panics now hholds hscheduler =>
    have hqueue := congrArg Scheduler.queue hscheduler
    exact effect_of_holds hholds (congrArg Scheduler.config hscheduler) rfl (hqueue ▸ lineStep_same h)
  | fails hheld _ hholds hconfig hsettles =>
    exact effect_of_holds hholds hconfig rfl (lineStep_settle h hheld hsettles hreport)
  | delivers | ignored => exact effect_of_service h rfl rfl
  | acknowledges now hsweeps => exact effect_of_sweeps h hsweeps rfl (by simp)

theorem effect_client (h : w.Healthy) (e : StoreEvent) (he : e.isClients) :
    w.Effect (.client e he) (w.react (.client e he)) := by
  obtain ⟨hcoherent, -, htables⟩ := Store.leaves_react h.coherent e
  refine ⟨hcoherent, ?_, rfl, lineStep_same h⟩
  have hafter : (w.react (.client e he)).tables = (w.service.store.direct.react e).2.tables := htables
  rw [hafter]
  exact w.service.store.direct.becomes_react he

private theorem effect_advanceSweep (h : w.Healthy) (i : Nat) (now : Instant) :
    w.Effect (.advanceSweep i now) (w.react (.advanceSweep i now)) := by
  cases hp : w.sweeps i with
  | none =>
    have hnoted : w.noted (.advanceSweep i now) = [] := by simp [noted, hp]
    exact effect_of_service h (by rw [react_advanceSweep_of_none hp]) hnoted
  | some p =>
    obtain ⟨seen, hsweeps⟩ := p.sweeps_advance h.coherent now
    have hnoted : w.noted (.advanceSweep i now) = p.notes := by simp [noted, hp]
    rw [react_advanceSweep hp]
    exact effect_of_sweeps h hsweeps hnoted fun key hkey => .advanced now i p hp hkey

private theorem effect_sweepExpired (h : w.Healthy) (now : Instant) :
    w.Effect (.sweepExpired now) (w.react (.sweepExpired now)) := by
  obtain ⟨t, ⟨hcoherent, htables⟩, hthins, hqueue, -⟩ := sweepExpired_eq h.coherent now
  refine ⟨hcoherent, ?_, config_sweepExpired w.service now, ?_⟩
  · exact hthins.becomes.congr (congrArg Tables.polls htables)
  · have hsame : (w.react (.sweepExpired now)).scheduler.queue = w.scheduler.queue := hqueue
    exact hsame ▸ lineStep_same h

private theorem effect_shutdown (h : w.Healthy) (aborts : Bool) :
    w.Effect (.shutdown aborts) (w.react (.shutdown aborts)) := by
  obtain ⟨⟨hcoherent, htables⟩, hqueue, -⟩ := shutdown_eq h.coherent
  obtain ⟨added, hsaved, -⟩ := Tables.savePending_eq w.scheduler.takeAll.1 w.tables
  have hpolls : (w.react (.shutdown aborts)).tables.polls = w.tables.polls :=
    (congrArg Tables.polls (htables.trans hsaved)).trans rfl
  refine ⟨hcoherent, (Tables.Becomes.refl w.tables).congr hpolls, config_shutdown w.service, ?_⟩
  have hempty : (w.react (.shutdown aborts)).scheduler.queue = .empty := hqueue
  exact hempty ▸ lineStep_empty fun _ => .drained aborts

private theorem effect_reachable (h : w.Healthy) (now : Instant) (guild : GuildId) :
    w.Effect (.reachable now guild) (w.react (.reachable now guild)) := by
  obtain ⟨⟨hcoherent, htables⟩, hscheduler⟩ := markReachable_eq h.coherent now guild
  rw [Scheduler.enqueueAll_eq_askAll] at hscheduler
  have hasked : (w.react (.reachable now guild)).scheduler = _ := hscheduler
  have hpolls : (w.react (.reachable now guild)).tables.polls = w.tables.polls :=
    (congrArg Tables.polls htables).trans rfl
  refine ⟨hcoherent, (Tables.Becomes.refl w.tables).congr hpolls, ?_, ?_⟩
  · rw [hasked]
    rfl
  · rw [hasked]
    exact lineStep_askAll h fun key hkey => .restored now guild hkey

/-- What an event does, as the rest of the development uses it. -/
theorem effect_react (h : w.Healthy) (e : SessionEvent) : w.Effect e (w.react e) := by
  cases e with
  | client e he => exact effect_client h e he
  | request now key =>
    refine effect_of_sweeps h (sweeps_enqueueAll h.coherent now [key]) rfl fun k hk => ?_
    obtain rfl := List.mem_singleton.mp hk
    exact .request now k
  | tick m => exact effect_tick h m
  | sweepEdits now =>
    obtain ⟨seen, hsweeps⟩ := sweeps_sweepEdits h.coherent now
    exact effect_of_sweeps h hsweeps rfl fun key hkey => .swept now hkey
  | beginSweep i now =>
    exact effect_of_sweeps h (SweepPhase.sweeps_start h.coherent now) rfl (by simp)
  | advanceSweep i now => exact effect_advanceSweep h i now
  | dropSweep i => exact effect_of_service h rfl rfl
  | sweepExpired now => exact effect_sweepExpired h now
  | shutdown aborts => exact effect_shutdown h aborts
  | reachable now guild => exact effect_reachable h now guild
  | unreachable guild => exact effect_of_holds ⟨h.coherent, rfl⟩ rfl rfl (lineStep_same h)
  | restart => exact effect_of_holds ⟨h.coherent, rfl⟩ rfl rfl (lineStep_empty fun _ => .replaced)

/-- The line after an event that has asked for a refresh. -/
theorem queue_of_asks (h : w.Healthy) {now : Instant} {key : PollKey} (hasks : w.Asks e now key) :
    ∃ keys, key ∈ keys ∧ (w.react e).scheduler.queue =
      w.scheduler.queue.askAll (now.plus w.scheduler.config.updateTimeout) now keys := by
  cases hasks with
  | request =>
    exact ⟨[key], List.mem_singleton_self key, (sweeps_enqueueAll h.coherent now [key]).queue⟩
  | restored now guild hkey =>
    have hscheduler : (w.react (.reachable now guild)).scheduler = _ :=
      (markReachable_eq h.coherent now guild).2
    rw [hscheduler, Scheduler.enqueueAll_eq_askAll]
    exact ⟨_, hkey, rfl⟩
  | swept now hkey =>
    obtain ⟨seen, hsweeps⟩ := sweeps_sweepEdits h.coherent now
    exact ⟨_, hkey, hsweeps.queue⟩
  | advanced now i p hp hkey =>
    obtain ⟨seen, hsweeps⟩ := p.sweeps_advance h.coherent now
    rw [react_advanceSweep hp]
    exact ⟨_, hkey, hsweeps.queue⟩

/-- What is asked for is in line afterwards. -/
theorem inLine_of_asks (h : w.Healthy) {now : Instant} {key : PollKey} (hasks : w.Asks e now key) :
    ∃ r, (w.react e).inLine? key = some r := by
  obtain ⟨keys, hkey, hqueue⟩ := queue_of_asks h hasks
  rw [inLine?, hqueue]
  exact RefreshQueue.exists_get?_askAll h.sound hkey

theorem Healthy.react (h : w.Healthy) (e : SessionEvent) : (w.react e).Healthy :=
  (effect_react h e).healthy h

theorem Healthy.after (h : w.Healthy) (events : List SessionEvent) : (w.after events).Healthy := by
  induction events generalizing w with
  | nil => exact h
  | cons e rest ih => exact ih (h.react e)

theorem config_after (h : w.Healthy) (events : List SessionEvent) :
    (w.after events).scheduler.config = w.scheduler.config := by
  induction events generalizing w with
  | nil => rfl
  | cons e rest ih => exact (ih (h.react e)).trans (effect_react h e).config

end Session
end PollKeeper
