import PollKeeper.Proofs.Refresh.Effect
import PollKeeper.Proofs.Store.UnseenEdits

/-!
# Sweeps for missed edits that nothing interrupts

What such a sweep counts, asks for and notes, and what it makes of the cursor from which the next one
looks. Only sweeps move the cursor, each to its own start.
-/

namespace PollKeeper

open Time

namespace Scheduler

theorem editCursor_take (s : Scheduler) (now : Instant) : (s.take now).2.editCursor = s.editCursor := by
  simp only [take]
  cases (s.queue.popEligible now s.isReachable).next <;> rfl

theorem editCursor_settle (s : Scheduler) (now : Instant) (r : Refresh)
    (result : Except RefreshError Unit) : (s.settle now r result).2.editCursor = s.editCursor := by
  simp only [settle, retry]
  split
  · rfl
  · split
    · rfl
    · split <;> rfl

end Scheduler

namespace Service

variable {s : Service} {now started : Instant} {edits : List PollEdit} {n : Nat}

theorem editCursor_prepare [ZoneClocks] (s : Service) (now : Instant) (r : Refresh) :
    (s.prepare now r).2.scheduler.editCursor = s.scheduler.editCursor := by
  have hprepare := scheduler_prepare s now r
  cases hstart : (s.prepare now r).1 with
  | finished outcome =>
    rw [hstart] at hprepare
    obtain ⟨e, hsettles⟩ := hprepare
    exact congrArg (·.2.editCursor) hsettles ▸ s.scheduler.editCursor_settle now r (.error e)
  | panicked =>
    rw [hstart] at hprepare
    exact congrArg Scheduler.editCursor hprepare
  | posting a =>
    rw [hstart] at hprepare
    exact congrArg Scheduler.editCursor hprepare.2

theorem editCursor_finishTick (s : Service) (now : Instant) (a : Attempt)
    (answer : Except GatewayError Unit) :
    (s.finishTick now a answer).2.scheduler.editCursor = s.scheduler.editCursor :=
  s.scheduler.editCursor_settle now a.refresh (answer.mapError .gateway)

theorem editCursor_sweepExpired (s : Service) (now : Instant) :
    (outcome (sweepExpired now) s).2.scheduler.editCursor = s.scheduler.editCursor := by
  have hkeeps : Keeps (·.editCursor) (sweepExpired now) :=
    keeps_get.bind fun _ => (keeps_onStore _).bind fun _ =>
      (keeps_onScheduler fun _ => rfl).bind fun _ => keeps_pure _
  exact hkeeps s

theorem editCursor_finishEnded (s : Service) (keys : List PollKey) :
    (outcome (finishEnded keys) s).2.scheduler.editCursor = s.scheduler.editCursor := by
  have hkeeps : Keeps (·.editCursor) (finishEnded keys) :=
    (keeps_onStore _).bind fun _ => (keeps_onScheduler fun _ => rfl).bind fun _ => keeps_pure _
  exact hkeeps s

theorem editCursor_enqueueAll (s : Service) (now : Instant) (keys : List PollKey) :
    (outcome (enqueueAll now keys) s).2.scheduler.editCursor = s.scheduler.editCursor := by
  have hscheduler : (outcome (enqueueAll now keys) s).2.scheduler = s.scheduler.enqueueAll now keys := rfl
  rw [hscheduler, Scheduler.enqueueAll_eq_askAll]

theorem editCursor_finishUnseen (hs : s.store.Coherent) (started : Instant) (edits : List PollEdit) :
    (outcome (finishUnseen started edits) s).2.scheduler.editCursor = some started := by
  simp only [finishUnseen, outcome_bind, outcome_onStore]
  rw [((Store.serves_markSeen edits).leaves hs).result]
  rfl

theorem result_editedSince (hs : s.store.Coherent) (cutoff : Instant) :
    (outcome (onStore (Store.editedSince cutoff)) s).1 =
      (s.tables.unseenSince cutoff.millis).mapM PollEdit.ofStamp := by
  rw [outcome_onStore]
  exact ((Store.serves_editedSince cutoff).leaves_reading hs).result

private theorem scheduler_editedSince (s : Service) (cutoff : Instant) :
    (outcome (onStore (Store.editedSince cutoff)) s).2.scheduler = s.scheduler := by
  rw [outcome_onStore]

theorem outcome_sweepUnseen (s : Service) (now : Instant) :
    outcome (sweepUnseen now) s =
      outcome (onStore (Store.editedSince s.scheduler.editCutoff) >>= fun edits => do
        enqueueAll now (edits.map (·.key))
        finishUnseen now edits) s := rfl

private theorem sweepUnseen_of_found (hs : s.store.Coherent) (now : Instant)
    (hfound : (outcome (onStore (Store.editedSince s.scheduler.editCutoff)) s).1 = .ok edits) :
    let s' := (outcome (sweepUnseen now) s).2
    (outcome (sweepUnseen now) s).1 = .ok edits.length ∧
      s.Sweeps now (edits.map (·.toStamp)) [] (edits.map (·.key)) s' ∧
      s'.scheduler.editCursor = some now := by
  rw [outcome_sweepUnseen, outcome_bind_of_ok _ hfound]
  have hquery := sweeps_editedSince hs now s.scheduler.editCutoff
  have hask := sweeps_enqueueAll hquery.holds.coherent now (edits.map (·.key))
  obtain ⟨hresult, hfinish⟩ := sweeps_finishUnseen hask.holds.coherent now now edits
  have hall := (hquery.trans hask).trans hfinish
  rw [List.nil_append, List.append_nil] at hall
  exact ⟨hresult, hall, editCursor_finishUnseen hask.holds.coherent now edits⟩

private theorem sweepEnded_eq (hs : s.store.Coherent) (now : Instant) :
    (outcome (sweepEnded now) s).1 = .ok (s.endedPolls now).length ∧
      (outcome (sweepEnded now) s).2.scheduler.editCursor = s.scheduler.editCursor := by
  obtain ⟨hfound, hquery⟩ := sweeps_endedUnrefreshed hs now now
  have hsame : (outcome (onStore (Store.endedUnrefreshed now)) s).2.scheduler = s.scheduler := by
    rw [outcome_onStore]
  rw [endedPolls_eq hs, sweepEnded, outcome_bind_of_ok _ hfound]
  generalize (outcome (onStore (Store.endedUnrefreshed now)) s).2 = s₁ at hquery hsame ⊢
  generalize s.tables.awaitingFinal now.ceilSeconds = keys
  have hasked : (outcome (enqueueAll now keys) s₁).1 = .ok () := rfl
  have hask := sweeps_enqueueAll hquery.holds.coherent now keys
  rw [outcome_bind_of_ok _ hasked, editCursor_finishEnded, editCursor_enqueueAll, hsame]
  exact ⟨(sweeps_finishEnded hask.holds.coherent now keys).1, rfl⟩

theorem sweepEdits_of_failed (now : Instant) {e : StoreError}
    (hfailed : (outcome (onStore (Store.editedSince s.scheduler.editCutoff)) s).1 = .error e) :
    (outcome (sweepEdits now) s).1 = .error e ∧
      (outcome (sweepEdits now) s).2.scheduler = s.scheduler := by
  have hunseen : outcome (sweepUnseen now) s =
      (.error e, (outcome (onStore (Store.editedSince s.scheduler.editCutoff)) s).2) := by
    rw [outcome_sweepUnseen, outcome_bind_of_error _ hfailed]
  have hresult : (outcome (sweepUnseen now) s).1 = .error e := by rw [hunseen]
  rw [sweepEdits, outcome_bind_of_error _ hresult, hunseen]
  exact ⟨rfl, scheduler_editedSince s _⟩

/-- What a sweep does whose query for unseen edits succeeds. -/
theorem sweepEdits_of_found (hs : s.store.Coherent) (now : Instant)
    (hfound : (outcome (onStore (Store.editedSince s.scheduler.editCutoff)) s).1 = .ok edits) :
    let ended := s.tables.awaitingFinal now.ceilSeconds
    let s' := (outcome (sweepEdits now) s).2
    (outcome (sweepEdits now) s).1 = .ok (edits.length + ended.length) ∧
      s.Sweeps now (edits.map (·.toStamp)) ended (edits.map (·.key) ++ ended) s' ∧
      s'.scheduler.editCursor = some now := by
  obtain ⟨hresult, hunseen, hcursor⟩ := sweepUnseen_of_found hs now hfound
  have hs₁ := hunseen.holds.coherent
  obtain ⟨hcount, hkept⟩ := sweepEnded_eq hs₁ now
  have hended := (sweeps_sweepEnded hs₁ now).2
  have htables : (outcome (sweepUnseen now) s).2.tables =
      (s.tables.markSeen (edits.map (·.toStamp))).2 := hunseen.holds.tables
  rw [endedPolls_eq hs₁, htables, Tables.awaitingFinal_markSeen] at hcount hended
  have hall := hunseen.trans hended
  rw [List.append_nil] at hall
  simp only [sweepEdits, outcome_bind_of_ok _ hresult, outcome_bind_of_ok _ hcount]
  exact ⟨rfl, hall, hkept.trans hcursor⟩

private theorem found_of_sweepEdits (hs : s.store.Coherent) (h : (outcome (sweepEdits now) s).1 = .ok n) :
    ∃ edits, (outcome (onStore (Store.editedSince s.scheduler.editCutoff)) s).1 = .ok edits ∧
      edits.map (·.toStamp) = s.tables.unseenSince s.scheduler.editCutoff.millis := by
  cases hfound : (outcome (onStore (Store.editedSince s.scheduler.editCutoff)) s).1 with
  | error e => cases (sweepEdits_of_failed now hfound).1.symm.trans h
  | ok edits => exact ⟨edits, rfl, mapM_ofStamp_eq_ok ((result_editedSince hs _).symm.trans hfound)⟩

/-- What a sweep does that succeeds, by the tables that it finds. -/
theorem sweepEdits_of_ok (hs : s.store.Coherent) (hok : (outcome (sweepEdits now) s).1 = .ok n) :
    let unseen := s.tables.unseenSince s.scheduler.editCutoff.millis
    let ended := s.tables.awaitingFinal now.ceilSeconds
    let s' := (outcome (sweepEdits now) s).2
    n = unseen.length + ended.length ∧ s.Sweeps now unseen ended (unseen.map (·.key) ++ ended) s' ∧
      s'.scheduler.editCursor = some now := by
  intro unseen ended s'
  obtain ⟨edits, hfound, hstamps⟩ := found_of_sweepEdits hs hok
  obtain ⟨hcount, hsweeps, hcursor⟩ := sweepEdits_of_found hs now hfound
  have hunseen : edits.map (·.toStamp) = unseen := hstamps
  have hkeys : edits.map (·.key) = unseen.map (·.key) := by
    rw [← hunseen, List.map_map]
    rfl
  have hlength : edits.length = unseen.length := by rw [← hunseen, List.length_map]
  rw [hunseen, hkeys] at hsweeps
  rw [hlength] at hcount
  exact ⟨Except.ok.inj (hok.symm.trans hcount), hsweeps, hcursor⟩

/-- A sweep that fails has not got past its first query. -/
theorem scheduler_sweepEdits_of_error (hs : s.store.Coherent) {e : StoreError}
    (herror : (outcome (sweepEdits now) s).1 = .error e) :
    (outcome (sweepEdits now) s).2.scheduler = s.scheduler := by
  cases hfound : (outcome (onStore (Store.editedSince s.scheduler.editCutoff)) s).1 with
  | error _ => exact (sweepEdits_of_failed now hfound).2
  | ok edits => cases (sweepEdits_of_found hs now hfound).1.symm.trans herror

theorem sweepEdits_of_nothing (hs : s.store.Coherent)
    (hunseen : s.tables.unseenSince s.scheduler.editCutoff.millis = [])
    (hended : s.tables.awaitingFinal now.ceilSeconds = []) :
    (outcome (sweepEdits now) s).1 = .ok 0 ∧
      (outcome (sweepEdits now) s).2.scheduler.queue = s.scheduler.queue ∧
      (outcome (sweepEdits now) s).2.tables = s.tables := by
  have hfound : (outcome (onStore (Store.editedSince s.scheduler.editCutoff)) s).1 = .ok [] := by
    rw [result_editedSince hs, hunseen]
    rfl
  obtain ⟨hcount, hsweeps, -⟩ := sweepEdits_of_found hs now hfound
  rw [hended] at hcount hsweeps
  exact ⟨hcount, hsweeps.queue, hsweeps.holds.tables⟩

theorem editCursor_sweepEdits (hs : s.store.Coherent) (now : Instant) :
    (outcome (sweepEdits now) s).2.scheduler.editCursor =
      if (outcome (sweepEdits now) s).1.isOk then some now else s.scheduler.editCursor := by
  cases hfound : (outcome (onStore (Store.editedSince s.scheduler.editCutoff)) s).1 with
  | error e =>
    obtain ⟨hresult, hscheduler⟩ := sweepEdits_of_failed now hfound
    rw [hresult, hscheduler]
    rfl
  | ok edits =>
    obtain ⟨hresult, -, hcursor⟩ := sweepEdits_of_found hs now hfound
    rw [hresult, hcursor]
    rfl

end Service
end PollKeeper
