import PollKeeper.Proofs.Refresh.OpenSession
import PollKeeper.Proofs.Refresh.Shutdown
import PollKeeper.Proofs.Refresh.WholeSweep

/-!
# How far sweeps have come

What an event of an open session makes of the unseen edits, of the cursor from which the next sweep looks,
and of the sweeps that have found some edits and not acknowledged them yet.
-/

namespace PollKeeper

open Time Service

namespace OpenEvent

def begins (i : Nat) : OpenEvent → Bool
  | session (.beginSweep j _) => j = i
  | _ => false

end OpenEvent

namespace Session

variable {w : Session} {e : OpenEvent} {i : Nat} {start now : Instant} {found : List PollEdit}
  {rest : List OpenEvent} {edit : EditStamp}

/-- What parts of sweeps leave unseen was unseen before. -/
theorem isUnseen_of_sweeps {s : Service} {seen : List EditStamp} {noted asks : List PollKey}
    (h : w.service.Sweeps now seen noted asks s) (hedit : s.tables.IsUnseen edit) :
    w.tables.IsUnseen edit := by
  rw [h.holds.tables] at hedit
  exact Tables.isUnseen_of_notes hedit

variable [ZoneClocks]

def mutatedAt? (w : Session) : OpenEvent → Option Instant
  | .session (.client e _) => e.mutatedAt? (w.service.store.react e).1
  | .store e => e.mutatedAt? (w.service.store.react e).1
  | _ => none

def mutations (w : Session) : List OpenEvent → List Instant
  | [] => []
  | e :: rest => (w.mutatedAt? e).toList ++ (w.reactOpen e).mutations rest

private theorem isUnseen_tick (h : w.Healthy) (m : TickMove)
    (hedit : (w.react (.tick m)).tables.IsUnseen edit) : w.tables.IsUnseen edit := by
  obtain ⟨s, stage, sweeps⟩ := w
  have hmoves := TickStage.moves h.coherent stage m
  rw [react_tick] at hedit
  generalize stage.move s m = o at hmoves hedit
  cases hmoves with
  | idle | takes | delivers | ignored => exact hedit
  | calls _ _ hholds | panics _ hholds | fails _ _ hholds =>
    simp only [tables, hholds.tables] at hedit
    exact hedit
  | acknowledges now hsweeps =>
    simp only [tables, hsweeps.holds.tables] at hedit
    exact Tables.isUnseen_of_notes hedit

private theorem isUnseen_store (h : w.Healthy) (e : StoreEvent)
    (hedit : (w.reactOpen (.store e)).tables.IsUnseen edit) :
    w.tables.IsUnseen edit ∨ ∃ now ∈ w.mutatedAt? (.store e), edit.editedAt = now.millis := by
  rw [tables_store h e] at hedit
  have hreply : (w.service.store.react e).1 = (w.service.store.direct.react e).1 :=
    (Store.leaves_react h.coherent e).2.1
  rw [mutatedAt?, hreply]
  exact w.service.store.direct.isUnseen_react hedit

/-- An edit that is unseen after an event was unseen before, or the event made it. -/
theorem isUnseen_reactOpen (h : w.Healthy) (hedit : (w.reactOpen e).tables.IsUnseen edit) :
    w.tables.IsUnseen edit ∨ ∃ now ∈ w.mutatedAt? e, edit.editedAt = now.millis := by
  cases e with
  | store e => exact isUnseen_store h e hedit
  | session e =>
    cases e with
    | client e he => exact isUnseen_store h e hedit
    | request | dropSweep | unreachable | restart => exact .inl hedit
    | tick m => exact .inl (isUnseen_tick h m hedit)
    | sweepEdits now =>
      obtain ⟨seen, hsweeps⟩ := sweeps_sweepEdits h.coherent now
      exact .inl (isUnseen_of_sweeps hsweeps hedit)
    | beginSweep i now => exact .inl (isUnseen_of_sweeps (SweepPhase.sweeps_start h.coherent now) hedit)
    | advanceSweep i now =>
      cases hp : w.sweeps i with
      | none =>
        rw [reactOpen, react_advanceSweep_of_none hp] at hedit
        exact .inl hedit
      | some p =>
        obtain ⟨seen, hsweeps⟩ := p.sweeps_advance h.coherent now
        rw [reactOpen, react_advanceSweep hp] at hedit
        exact .inl (isUnseen_of_sweeps hsweeps hedit)
    | sweepExpired now =>
      obtain ⟨t, ⟨-, htables⟩, hthins, -⟩ := sweepExpired_eq h.coherent now
      have hafter : (w.reactOpen (.session (.sweepExpired now))).tables = t := htables
      exact .inl (hthins.isUnseen (hafter ▸ hedit))
    | shutdown aborts =>
      obtain ⟨⟨-, htables⟩, -⟩ := shutdown_eq h.coherent
      obtain ⟨added, hsaved, -⟩ := Tables.savePending_eq w.scheduler.takeAll.1 w.tables
      have hpolls : (w.reactOpen (.session (.shutdown aborts))).tables.polls = w.tables.polls :=
        (congrArg Tables.polls (htables.trans hsaved)).trans rfl
      exact .inl ((Tables.isUnseen_congr hpolls).mp hedit)
    | reachable now guild =>
      obtain ⟨⟨-, htables⟩, -⟩ := markReachable_eq h.coherent now guild
      have hpolls : (w.reactOpen (.session (.reachable now guild))).tables.polls = w.tables.polls :=
        (congrArg Tables.polls htables).trans rfl
      exact .inl ((Tables.isUnseen_congr hpolls).mp hedit)

private theorem editCursor_tick (w : Session) (m : TickMove) :
    (w.react (.tick m)).scheduler.editCursor = w.scheduler.editCursor := by
  obtain ⟨s, stage, sweeps⟩ := w
  rw [react_tick]
  cases stage with
  | resting =>
    cases m with
    | begin now =>
      rw [TickStage.move_begin]
      cases (s.scheduler.take now).1 <;> exact s.scheduler.editCursor_take now
    | _ => rfl
  | reading r =>
    cases m with
    | read now =>
      rw [TickStage.move_read]
      cases (s.prepare now r).1 <;> exact s.editCursor_prepare now r
    | _ => rfl
  | posting a =>
    cases m with
    | refuse now e => exact s.editCursor_finishTick now a (.error e)
    | _ => rfl
  | acknowledging a =>
    cases m with
    | acknowledge now => exact s.editCursor_finishTick now a (.ok ())
    | _ => rfl

/-- How the cursor comes to the start of a sweep. -/
inductive MovesCursor (w : Session) (start : Instant) : OpenEvent → Prop where
  | whole (hok : (outcome (Service.sweepEdits start) w.service).1.isOk = true) :
      w.MovesCursor start (.session (.sweepEdits start))
  | phase (i : Nat) (now : Instant) {found : List PollEdit}
      (hphase : w.sweeps i = some (.askedEdited start found)) :
      w.MovesCursor start (.session (.advanceSweep i now))

theorem editCursor_reactOpen (h : w.Healthy) (hstart : (w.reactOpen e).scheduler.editCursor = some start) :
    w.scheduler.editCursor = some start ∨ w.MovesCursor start e := by
  cases e with
  | store e => exact .inl hstart
  | session e =>
    cases e with
    | client | request | dropSweep | unreachable => exact .inl hstart
    | tick m => exact .inl ((w.editCursor_tick m).symm.trans hstart)
    | sweepEdits now =>
      have hcursor : (w.reactOpen (.session (.sweepEdits now))).scheduler.editCursor = _ :=
        editCursor_sweepEdits h.coherent now
      rw [hcursor] at hstart
      split at hstart
      · next hok =>
        cases hstart
        exact .inr (.whole hok)
      · exact .inl hstart
    | beginSweep i now =>
      have hcursor : (w.reactOpen (.session (.beginSweep i now))).scheduler = w.scheduler :=
        scheduler_start w.service now
      exact .inl (hcursor ▸ hstart)
    | advanceSweep i now =>
      cases hp : w.sweeps i with
      | none =>
        rw [reactOpen, react_advanceSweep_of_none hp] at hstart
        exact .inl hstart
      | some p =>
        rw [reactOpen, react_advanceSweep hp] at hstart
        have hcursor : (p.advance w.service now).2.scheduler.editCursor = some start := hstart
        cases p with
        | askedEdited started found =>
          obtain ⟨hresult, -⟩ := finishUnseen_eq h.coherent started found
          have hmoved := editCursor_finishUnseen h.coherent started found
          simp only [SweepPhase.advance] at hcursor
          generalize outcome (finishUnseen started found) w.service = o at hresult hmoved hcursor
          obtain ⟨_, s⟩ := o
          cases hresult
          cases hmoved.symm.trans hcursor
          exact .inr (.phase i now hp)
        | edited started found =>
          exact .inl ((editCursor_enqueueAll w.service now _).symm.trans hcursor)
        | acknowledged started =>
          obtain ⟨keys, -, -, hscheduler⟩ := SweepPhase.advance_acknowledged h.coherent now started
          exact .inl ((congrArg Scheduler.editCursor hscheduler).symm.trans hcursor)
        | ended found => exact .inl ((editCursor_enqueueAll w.service now _).symm.trans hcursor)
        | askedEnded found => exact .inl ((editCursor_finishEnded w.service found).symm.trans hcursor)
    | sweepExpired now => exact .inl ((editCursor_sweepExpired w.service now).symm.trans hstart)
    | shutdown aborts =>
      have hcursor : (w.reactOpen (.session (.shutdown aborts))).scheduler.editCursor =
          w.scheduler.editCursor := by
        simp only [reactOpen, react, scheduler, outcome_shutdown]
      exact .inl (hcursor.symm.trans hstart)
    | reachable now guild =>
      have hscheduler : (w.reactOpen (.session (.reachable now guild))).scheduler = _ :=
        (markReachable_eq h.coherent now guild).2
      rw [hscheduler, Scheduler.enqueueAll_eq_askAll] at hstart
      exact .inl hstart
    | restart => cases hstart

/-- The sweep in a slot has found some edits, and has not acknowledged them yet. -/
def HasFound (w : Session) (i : Nat) (start : Instant) (found : List PollEdit) : Prop :=
  w.sweeps i = some (.edited start found) ∨ w.sweeps i = some (.askedEdited start found)

theorem hasFound_reactOpen (h : w.Healthy) (hfound : (w.reactOpen e).HasFound i start found) :
    e.begins i = false ∧ w.HasFound i start found ∨
      e = .session (.beginSweep i start) ∧
        found.map (·.toStamp) = w.tables.unseenSince w.scheduler.editCutoff.millis := by
  cases e with
  | store e => exact .inl ⟨rfl, hfound⟩
  | session e =>
    cases e with
    | client | request | tick | sweepEdits | sweepExpired | shutdown | reachable | unreachable =>
      exact .inl ⟨rfl, hfound⟩
    | restart => rcases hfound with hfound | hfound <;> cases hfound
    | dropSweep j =>
      refine .inl ⟨rfl, ?_⟩
      by_cases hj : i = j
      · simp [HasFound, reactOpen, react, withSweep, hj] at hfound
      · simpa [HasFound, reactOpen, react, withSweep, hj] using hfound
    | beginSweep j now =>
      by_cases hj : i = j
      · subst hj
        obtain ⟨-, -, hphase⟩ := SweepPhase.start_cases h.coherent now
        simp only [HasFound, reactOpen, react, withSweep, if_true] at hfound
        rcases hfound with hfound | hfound
        · obtain ⟨edits, hedits, hstamps⟩ := hphase _ hfound
          cases hedits
          exact .inr ⟨rfl, hstamps⟩
        · obtain ⟨edits, hedits, -⟩ := hphase _ hfound
          cases hedits
      · refine .inl ⟨decide_eq_false (Ne.symm hj), ?_⟩
        simpa [HasFound, reactOpen, react, withSweep, hj] using hfound
    | advanceSweep j now =>
      refine .inl ⟨rfl, ?_⟩
      cases hp : w.sweeps j with
      | none =>
        have hreact : w.react (.advanceSweep j now) = w := by simp only [react, hp]
        rwa [reactOpen, hreact] at hfound
      | some p =>
        rw [reactOpen, react_advanceSweep hp] at hfound
        by_cases hj : i = j
        · subst hj
          simp only [HasFound, withSweep, if_true] at hfound
          cases p with
          | edited started edits =>
            simp only [SweepPhase.advance, Option.some.injEq, reduceCtorEq, false_or,
              SweepPhase.askedEdited.injEq] at hfound
            obtain ⟨rfl, rfl⟩ := hfound
            exact .inl hp
          | askedEdited | acknowledged =>
            simp only [SweepPhase.advance] at hfound
            split at hfound <;> simp at hfound
          | ended | askedEnded => simp [SweepPhase.advance] at hfound
        · simpa [HasFound, withSweep, hj] using hfound

end Session
end PollKeeper
