import PollKeeper.Proofs.Refresh.Outcome
import PollKeeper.Proofs.Storage.Notes
import PollKeeper.Proofs.Store.Changes

/-!
# Phases of ticks and sweeps

What each phase leaves of the tables, of the queue and of the refresh in flight, when the caches of the
store are coherent.
-/

namespace PollKeeper

open Time

namespace Service

variable {s s' : Service} {now : Instant} {r : Refresh} {a : Attempt}

def tables (s : Service) : Tables := s.store.database.tables

structure Holds (s : Service) (t : Tables) : Prop where
  coherent : s.store.Coherent
  tables : s.tables = t

theorem holds_of_leaves {α : Type} {x : Except StoreError α × Store} {result : Except StoreError α}
    {t : Tables} (h : Leaves x result t) (scheduler : Scheduler) : Holds ⟨x.2, scheduler⟩ t :=
  ⟨h.coherent, h.tables⟩

structure Reads [ZoneClocks] (t : Tables) (r : Refresh) (a : Attempt) : Prop where
  refresh : a.refresh = r
  key : a.posting.key = r.key
  text : ∃ p, t.poll? r.key = .ok (some p) ∧ p.message? = some a.posting.text
  edit : ∃ row, t.row? r.key = some row ∧ a.edit.toStamp = ⟨r.key, row.editedAt⟩

theorem prepare_cases [ZoneClocks] (hs : s.store.Coherent) (now : Instant) (r : Refresh) :
    Holds (s.prepare now r).2 s.tables ∧
      match (s.prepare now r).1 with
      | .finished outcome => s.scheduler.Fails r outcome (s.prepare now r).2.scheduler.queue
      | .panicked => True
      | .posting a => (s.prepare now r).2.scheduler = s.scheduler ∧ Reads s.tables r a := by
  have hleaves := Store.leaves_refreshable hs r.key
  simp only [prepare]
  rw [hleaves.result]
  cases hread : s.store.refreshed r.key with
  | error e => exact ⟨holds_of_leaves hleaves _, s.scheduler.fails_settle now r (.store e)⟩
  | ok found =>
    obtain ⟨p, edit⟩ := found
    obtain ⟨-, hfetch, hedit⟩ := Store.refreshed_eq_ok_iff.mp hread
    cases htext : p.message? with
    | none =>
      simp only [htext]
      exact ⟨holds_of_leaves hleaves _, trivial⟩
    | some text =>
      simp only [htext]
      exact ⟨holds_of_leaves hleaves _, trivial, rfl, rfl, ⟨p, fetch_eq_ok hfetch, htext⟩,
        latestEdit_eq_ok hedit⟩

theorem prepare_panicked_iff [ZoneClocks] (hs : s.store.Coherent) (now : Instant) (r : Refresh) :
    (s.prepare now r).1 = .panicked ↔
      ∃ p edit, s.store.refreshed r.key = .ok (p, edit) ∧ p.message? = none := by
  have hleaves := Store.leaves_refreshable hs r.key
  simp only [prepare]
  rw [hleaves.result]
  cases hread : s.store.refreshed r.key with
  | error e => simp
  | ok found =>
    obtain ⟨p, edit⟩ := found
    cases htext : p.message? <;> simp [htext]

theorem finishTick_error (s : Service) (now : Instant) (a : Attempt) (e : GatewayError) :
    (s.finishTick now a (.error e)).2.store = s.store ∧
      s.scheduler.Fails a.refresh (s.finishTick now a (.error e)).1
        (s.finishTick now a (.error e)).2.scheduler.queue :=
  ⟨rfl, s.scheduler.fails_settle now a.refresh (.gateway e)⟩

theorem finishTick_ok (hs : s.store.Coherent) (now : Instant) (a : Attempt) :
    Holds (s.finishTick now a (.ok ())).2 (s.tables.markSeen [a.edit.toStamp]).2 ∧
      (s.finishTick now a (.ok ())).1 = .delivered ∧
      (s.finishTick now a (.ok ())).2.scheduler.queue = s.scheduler.queue :=
  ⟨holds_of_leaves ((Store.serves_markSeen [a.edit]).leaves hs) _, rfl, rfl⟩

theorem finishUnseen_eq (hs : s.store.Coherent) (started : Instant) (found : List PollEdit) :
    (outcome (finishUnseen started found) s).1 = .ok found.length ∧
      Holds (outcome (finishUnseen started found) s).2
        (s.tables.markSeen (found.map (·.toStamp))).2 ∧
      (outcome (finishUnseen started found) s).2.scheduler.queue = s.scheduler.queue ∧
      (outcome (finishUnseen started found) s).2.scheduler.inFlight = s.scheduler.inFlight := by
  have hleaves := (Store.serves_markSeen found).leaves hs
  simp only [finishUnseen, outcome_bind, outcome_onStore]
  rw [hleaves.result]
  exact ⟨rfl, holds_of_leaves hleaves _, rfl, rfl⟩

theorem finishEnded_eq (hs : s.store.Coherent) (keys : List PollKey) :
    Holds (outcome (finishEnded keys) s).2 (s.tables.markFinal keys).2 ∧
      (outcome (finishEnded keys) s).2.scheduler.queue = s.scheduler.queue ∧
      (outcome (finishEnded keys) s).2.scheduler.inFlight = s.scheduler.inFlight := by
  have hleaves := (Store.serves_markFinal keys).leaves hs
  simp only [finishEnded, outcome_bind, outcome_onStore]
  rw [hleaves.result]
  exact ⟨holds_of_leaves hleaves _, rfl, rfl⟩

theorem sweepExpired_eq (hs : s.store.Coherent) (now : Instant) :
    ∃ t, Holds (outcome (sweepExpired now) s).2 t ∧ s.tables.Thins t ∧
      (outcome (sweepExpired now) s).2.scheduler.queue = s.scheduler.queue ∧
      (outcome (sweepExpired now) s).2.scheduler.inFlight = s.scheduler.inFlight := by
  have hleaves := Store.leaves_deleteExpired hs (now.minus s.scheduler.config.retention)
  simp only [sweepExpired, outcome_bind, outcome_get, outcome_onStore]
  rw [hleaves.result]
  exact ⟨_, holds_of_leaves hleaves _, s.store.direct.thins_deleteExpired _, rfl, rfl⟩

theorem markReachable_eq (hs : s.store.Coherent) (now : Instant) (guild : GuildId) :
    Holds (outcome (markReachable now guild) s).2 (s.tables.takePending guild).2 ∧
      (outcome (markReachable now guild) s).2.scheduler =
        (s.scheduler.markReachable guild).enqueueAll now (s.tables.pendingOf guild) := by
  have hleaves := (Store.serves_takePersisted guild).leaves hs
  simp only [markReachable, outcome_bind, outcome_onScheduler, outcome_onStore]
  rw [hleaves.result]
  exact ⟨holds_of_leaves hleaves _, rfl⟩

theorem shutdown_eq (hs : s.store.Coherent) :
    Holds (outcome shutdown s).2
        (s.tables.savePending s.scheduler.takeAll.1).2 ∧
      (outcome shutdown s).2.scheduler.queue = .empty ∧
      (outcome shutdown s).2.scheduler.inFlight = none := by
  have hleaves := (Store.serves_persist s.scheduler.takeAll.1).leaves hs
  have htaken : ({ s.scheduler with worker := s.scheduler.worker.stop } : Scheduler).takeAll.1 =
      s.scheduler.takeAll.1 := rfl
  simp only [shutdown, outcome_bind, outcome_onScheduler, outcome_onStore, htaken]
  rw [hleaves.result]
  exact ⟨holds_of_leaves hleaves _, rfl, rfl⟩

end Service

namespace SweepPhase

open Service

variable {s : Service}

/-- The edits that a sweep has found and not yet acknowledged. -/
def found : SweepPhase → List PollEdit
  | edited _ found => found
  | askedEdited _ found => found
  | _ => []

/-- Those of them whose refreshes it has asked for. -/
def asked : SweepPhase → List PollEdit
  | askedEdited _ found => found
  | _ => []

theorem start_cases (hs : s.store.Coherent) (now : Instant) :
    Holds (start s now).2 s.tables ∧ (start s now).2.scheduler = s.scheduler ∧
      ∀ p, (start s now).1 = some p → ∃ edits, p = .edited now edits ∧
        edits.map (·.toStamp) = s.tables.unseenSince s.scheduler.editCutoff.millis := by
  have hleaves := (Store.serves_editedSince s.scheduler.editCutoff).leaves_reading hs
  simp only [start, outcome_onStore]
  rw [hleaves.result]
  cases hfound : (s.store.database.tables.unseenSince s.scheduler.editCutoff.millis).mapM
      PollEdit.ofStamp with
  | error e => exact ⟨holds_of_leaves hleaves _, rfl, fun p h => by cases h⟩
  | ok edits =>
    refine ⟨holds_of_leaves hleaves _, rfl, fun p h => ?_⟩
    cases h
    exact ⟨edits, rfl, mapM_ofStamp_eq_ok hfound⟩

theorem advance_acknowledged (hs : s.store.Coherent) (now started : Instant) :
    ∃ keys, ((acknowledged started).advance s now).1 = some (.ended keys) ∧
      Holds ((acknowledged started).advance s now).2 s.tables ∧
      ((acknowledged started).advance s now).2.scheduler = s.scheduler := by
  have hleaves := (Serves.look fun t => .ok (t.awaitingFinal started.ceilSeconds)).leaves_reading hs
  have hresult : ((Store.endedUnrefreshed started).outcome s.store).1 =
      .ok (s.tables.awaitingFinal started.ceilSeconds) := hleaves.result
  simp only [advance, outcome_onStore]
  rw [hresult]
  exact ⟨_, rfl, holds_of_leaves hleaves _, rfl⟩

end SweepPhase
end PollKeeper
