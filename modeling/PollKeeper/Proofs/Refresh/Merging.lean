import Mathlib.Data.List.Infix
import PollKeeper.Proofs.Refresh.OpenSession
import PollKeeper.Proofs.Refresh.Shutdown
import PollKeeper.Proofs.Refresh.Ticks
import PollKeeper.Time.ZoneHistories

/-!
# One refresh for each poll

Whatever the scheduler does, the line holds a poll once at most, under one key and with one entry. A
request for a poll in line is merged into the refresh that is there: it can put off the timeout of that
refresh, but never bring it forward. All of that follows from what a step of the scheduler can make of the
line (`RefreshQueue.Steps`).
-/

namespace PollKeeper

open Time Service

namespace Time.Instant

variable {a b c : Instant}

theorem le_refl (a : Instant) : a ≤ a := by
  intro (h : Before a a)
  simp only [Before] at h
  omega

theorem le_trans (hab : a ≤ b) (hbc : b ≤ c) : a ≤ c := by
  have hab : ¬ Before b a := hab
  have hbc : ¬ Before c b := hbc
  intro (hca : Before c a)
  simp only [Before] at hab hbc hca
  omega

theorem le_later (a b : Instant) : a ≤ a.later b := by
  simp only [later]
  split
  · next h =>
    have h : Before a b := h
    intro (hba : Before b a)
    simp only [Before] at h hba
    omega
  · exact le_refl a

end Time.Instant

namespace Refresh

/-- The same refresh of the same poll, which may have got more time but not less. -/
structure Lasts (r r' : Refresh) : Prop extends r.Stays r' where
  key : r'.key = r.key
  timeout : r.timeout ≤ r'.timeout

theorem Lasts.refl (r : Refresh) : r.Lasts r := ⟨.refl r, rfl, Instant.le_refl _⟩

theorem Lasts.trans {r r' r'' : Refresh} (h : r.Lasts r') (h' : r'.Lasts r'') : r.Lasts r'' :=
  ⟨h.toStays.trans h'.toStays, h'.key.trans h.key, Instant.le_trans h.timeout h'.timeout⟩

end Refresh

namespace RefreshQueue

variable {q q' : RefreshQueue} {key : PollKey} {r : Refresh}

private theorem lasts_upsert (s : Refresh) (h : q.get? key = some r) :
    ∃ r', (q.upsert s).2.get? key = some r' ∧ r.Lasts r' := by
  rw [get?_upsert, h]
  split
  · exact ⟨_, rfl, ⟨rfl, rfl⟩, rfl, r.timeout.le_later s.timeout⟩
  · exact ⟨r, rfl, .refl r⟩

/-- A request for a poll in line is no new refresh: all stay where they are, and the one of that poll gets
the later of both timeouts. -/
theorem merges_upsert (h : q.Sound) (r : Refresh) (hkey : r.key ∈ q.order) :
    (q.upsert r).1 = false ∧ (q.upsert r).2.order = q.order ∧
      (q.upsert r).2.toList = q.toList.map fun old =>
        if old.key = r.key then { old with timeout := old.timeout.later r.timeout } else old := by
  obtain ⟨old, hold⟩ := h.get?_of_mem hkey
  refine ⟨?_, ?_, ?_⟩
  · rw [upsert_fst, hold]
    rfl
  · rw [order_upsert h, if_pos hkey]
  · rw [toList_upsert h, if_pos hkey]

def upsertAll (q : RefreshQueue) (rs : List Refresh) : RefreshQueue :=
  rs.foldl (fun q r => (q.upsert r).2) q

private theorem askAll_eq_upsertAll (q : RefreshQueue) (timeout now : Instant) (keys : List PollKey) :
    q.askAll timeout now keys = q.upsertAll (keys.map (⟨·, timeout, now, 0⟩)) := by
  simp only [askAll, upsertAll, List.foldl_map]

/-- What a step of the scheduler can make of the line. -/
inductive Steps (q : RefreshQueue) : RefreshQueue → Prop where
  | asks (rs : List Refresh) : q.Steps (q.upsertAll rs)
  | passes (now : Instant) (reachable : GuildId → Bool) : q.Steps (q.popEligible now reachable).queue
  | drains : q.Steps q.drain.2

theorem Steps.same (q : RefreshQueue) : q.Steps q := .asks []

theorem Steps.askAll (q : RefreshQueue) (timeout now : Instant) (keys : List PollKey) :
    q.Steps (q.askAll timeout now keys) := by
  rw [askAll_eq_upsertAll]
  exact .asks _

private theorem lasts_upsertAll (rs : List Refresh) (h : q.get? key = some r) :
    ∃ r', (q.upsertAll rs).get? key = some r' ∧ r.Lasts r' := by
  induction rs generalizing q r with
  | nil => exact ⟨r, h, .refl r⟩
  | cons first rest ih =>
    obtain ⟨s, hs, hfirst⟩ := lasts_upsert first h
    obtain ⟨r', hr', hrest⟩ := ih hs
    exact ⟨r', hr', hfirst.trans hrest⟩

theorem Steps.lasts (h : q.Steps q') (hq : q.Sound) {r' : Refresh} (hr : q.get? key = some r)
    (hr' : q'.get? key = some r') : r.Lasts r' := by
  cases h with
  | asks rs =>
    obtain ⟨s, hs, hlasts⟩ := lasts_upsertAll rs hr
    cases hs.symm.trans hr'
    exact hlasts
  | passes now reachable =>
    cases hr.symm.trans (get?_of_popEligible hq hr')
    exact .refl r
  | drains => cases hr'

/-- The map holds as many entries as there are refreshes in line. -/
theorem Sound.size_eq (h : q.Sound) : q.size = q.toList.length := by
  have hperm : q.entries.keys.Perm q.keys := by
    refine (List.perm_ext_iff_of_nodup q.entries.distinct h.nodup_keys).mpr fun key => ?_
    rw [h.keys_eq, h.mem_order]
    exact Keyed.mem_keys
  have hlength : q.entries.keys.length = q.keys.length := hperm.length_eq
  simpa [keys, Keyed.keys, size, Keyed.size] using hlength

end RefreshQueue

namespace Service

variable {s : Service}

/-- A shutdown counts the refresh in flight and those that wait. -/
theorem count_shutdown (hs : s.store.Coherent) (hq : s.scheduler.queue.Sound) :
    (outcome shutdown s).1 = .ok (s.scheduler.inFlight.toList.length + s.scheduler.pending) := by
  have hkept := ((Store.serves_persist s.scheduler.takeAll.1).leaves hs).result
  have hwaiting : s.scheduler.pending = s.scheduler.queue.toList.length := hq.size_eq
  rw [outcome_shutdown, hkept, hwaiting, Scheduler.takeAll_eq hq, List.length_append, RefreshQueue.keys,
    List.length_map]
  rfl

end Service

namespace Session

section

variable [ZoneClocks] {w : Session}

private theorem steps_tick (h : w.Healthy) (m : TickMove) :
    w.scheduler.queue.Steps (w.react (.tick m)).scheduler.queue := by
  obtain ⟨s, stage, sweeps⟩ := w
  have hmoves := TickStage.moves h.coherent stage m
  rw [react_tick]
  generalize stage.move s m = o at hmoves
  cases hmoves with
  | idle now | takes now =>
    simp only [scheduler, s.scheduler.queue_take now]
    exact .passes now s.scheduler.isReachable
  | calls now _ _ hscheduler | panics now _ hscheduler =>
    simp only [scheduler, hscheduler]
    exact .same _
  | fails _ _ _ _ hsettles =>
    simp only [scheduler]
    generalize Scheduler.queue _ = q at hsettles ⊢
    cases hsettles with
    | missing | exhausted => exact .same _
    | retrying => exact .asks [_]
  | delivers | ignored => exact .same _
  | acknowledges now hsweeps =>
    simp only [scheduler, hsweeps.queue]
    exact .askAll _ _ now []

/-- Each event is a step of the scheduler, or leaves the line alone. -/
theorem steps_react (h : w.Healthy) (e : SessionEvent) :
    w.scheduler.queue.Steps (w.react e).scheduler.queue := by
  cases e with
  | client | dropSweep | unreachable => exact .same _
  | request now key => exact .asks [_]
  | tick m => exact steps_tick h m
  | sweepEdits now =>
    obtain ⟨seen, hsweeps⟩ := sweeps_sweepEdits h.coherent now
    have hqueue : (w.react (.sweepEdits now)).scheduler.queue = _ := hsweeps.queue
    exact hqueue ▸ .askAll _ _ now _
  | beginSweep i now =>
    have hqueue : (w.react (.beginSweep i now)).scheduler.queue = _ :=
      (SweepPhase.sweeps_start h.coherent now).queue
    exact hqueue ▸ .same _
  | advanceSweep i now =>
    cases hp : w.sweeps i with
    | none =>
      rw [react_advanceSweep_of_none hp]
      exact .same _
    | some p =>
      obtain ⟨seen, hsweeps⟩ := p.sweeps_advance h.coherent now
      rw [react_advanceSweep hp]
      have hqueue : (w.withSweep i (p.advance w.service now)).scheduler.queue = _ := hsweeps.queue
      exact hqueue ▸ .askAll _ _ now _
  | sweepExpired now =>
    obtain ⟨-, -, -, hqueue, -⟩ := sweepExpired_eq h.coherent now
    have hsame : (w.react (.sweepExpired now)).scheduler.queue = w.scheduler.queue := hqueue
    exact hsame ▸ .same _
  | shutdown aborts =>
    have hempty : (w.react (.shutdown aborts)).scheduler.queue = .empty := (shutdown_eq h.coherent).2.1
    exact hempty ▸ .drains
  | reachable now guild =>
    have hscheduler : (w.react (.reachable now guild)).scheduler = _ :=
      (markReachable_eq h.coherent now guild).2
    rw [hscheduler, Scheduler.enqueueAll_eq_askAll]
    exact .askAll _ _ now _
  | restart => exact .drains

private theorem steps_reactOpen (h : w.Healthy) (e : OpenEvent) :
    w.scheduler.queue.Steps (w.reactOpen e).scheduler.queue := by
  cases e with
  | session e => exact steps_react h e
  | store e => exact .same _

/-- As long as a poll stays in line, its refresh lasts. -/
theorem lasts_afterOpen (h : w.Healthy) {key : PollKey} {rest : List OpenEvent} {r : Refresh}
    (hr : w.inLine? key = some r)
    (hline : ∀ before ∈ rest.inits, ((w.afterOpen before).inLine? key).isSome) :
    ∃ r', (w.afterOpen rest).inLine? key = some r' ∧ r.Lasts r' := by
  induction rest generalizing w r with
  | nil => exact ⟨r, hr, .refl r⟩
  | cons e rest ih =>
    have hrest : ∀ before ∈ rest.inits, (((w.reactOpen e).afterOpen before).inLine? key).isSome :=
      fun before hbefore => hline (e :: before) (by simpa using hbefore)
    obtain ⟨s, hs⟩ := Option.isSome_iff_exists.mp (hrest [] (by simp))
    obtain ⟨r', hr', hlasts⟩ := ih (h.reactOpen e) hs hrest
    exact ⟨r', hr', ((steps_reactOpen h e).lasts h.sound hr hs).trans hlasts⟩

/-- At every moment of a run, the line holds no poll twice, and the polls in it are those that have an
entry, each with its own key. So those that are counted as pending, those that are listed and those that a
shutdown takes out are as many. A request for a poll in line, whether it is new or comes from a failure,
a sweep or a restore, is merged into the refresh that is there, whose timeout only ever gets later while
the poll stays in line. -/
theorem one_refresh_for_each_poll (config : SchedulerConfig) (events : List OpenEvent) :
    let w := (fresh config).afterOpen events
    let q := w.scheduler.queue
    (q.order.Nodup ∧ (∀ key, key ∈ q.order ↔ key ∈ q.entries.keys) ∧
        ∀ key r, q.entries.get? key = some r → r.key = key) ∧
      (w.scheduler.pending = q.toList.length ∧ w.scheduler.pending = q.drain.1.length ∧
        (outcome shutdown w.service).1 =
          .ok (w.scheduler.inFlight.toList.length + w.scheduler.pending)) ∧
      (∀ r : Refresh, r.key ∈ q.order →
        (q.upsert r).1 = false ∧ (q.upsert r).2.order = q.order ∧
          (q.upsert r).2.toList = q.toList.map fun old =>
            if old.key = r.key then { old with timeout := old.timeout.later r.timeout } else old) ∧
      ∀ key r rest, w.inLine? key = some r →
        (∀ before ∈ rest.inits, ((w.afterOpen before).inLine? key).isSome) →
        ∃ r', (w.afterOpen rest).inLine? key = some r' ∧ r'.attempts = r.attempts ∧
          r'.nextTry = r.nextTry ∧ r.timeout ≤ r'.timeout := by
  intro w q
  have hw : w.Healthy := (healthy_fresh config).afterOpen events
  have hq : q.Sound := hw.sound
  refine ⟨⟨hq.nodup, fun key => ?_, hq.key_eq⟩,
    ⟨hq.size_eq, q.drain_eq hq ▸ hq.size_eq, count_shutdown hw.coherent hq⟩,
    fun r hr => q.merges_upsert hq r hr, fun key r rest hr hline => ?_⟩
  · rw [hq.mem_order, Keyed.mem_keys]
  · obtain ⟨r', hr', hlasts⟩ := lasts_afterOpen hw hr hline
    exact ⟨r', hr', hlasts.attempts, hlasts.nextTry, hlasts.timeout⟩

end

open ZoneHistories

/-- The poll is asked for again a second later: nothing is added, and its timeout is a second later. -/
theorem one_refresh_for_lunch :
    let w := (fresh .everySecond).afterOpen (requestLunch.map .session)
    let later := Instant.plus .earliest (.ofSeconds 1)
    let again : Refresh := ⟨⟨1, 7⟩, later.plus (.ofSeconds 1), later, 0⟩
    (w.scheduler.queue.upsert again).1 = false ∧ w.scheduler.pending = 1 ∧
      (outcome shutdown w.service).1 = .ok 1 ∧
      (∃ r, w.inLine? ⟨1, 7⟩ = some r ∧ r.timeout < again.timeout) ∧
      ∃ r', (w.afterOpen [.session (.request later ⟨1, 7⟩)]).inLine? ⟨1, 7⟩ = some r' ∧
        r'.attempts = 0 ∧ r'.nextTry = .earliest := by
  intro w later again
  have hr : w.inLine? ⟨1, 7⟩ = some ⟨⟨1, 7⟩, later, .earliest, 0⟩ := by decide +kernel
  have hline : ∀ before ∈ [OpenEvent.session (.request later ⟨1, 7⟩)].inits,
      ((w.afterOpen before).inLine? ⟨1, 7⟩).isSome := by decide +kernel
  have hkey : again.key ∈ w.scheduler.queue.order := by decide +kernel
  have hpending : w.scheduler.inFlight.toList.length = 0 ∧ w.scheduler.pending = 1 := by decide +kernel
  obtain ⟨-, ⟨-, -, hshutdown⟩, hmerges, hlasts⟩ :=
    one_refresh_for_each_poll .everySecond (requestLunch.map .session)
  obtain ⟨r', hr', hattempts, hnextTry, -⟩ := hlasts ⟨1, 7⟩ _ _ hr hline
  refine ⟨(hmerges again hkey).1, hpending.2, ?_, ⟨_, hr, by decide +kernel⟩, r', hr', hattempts, hnextTry⟩
  rw [hshutdown, hpending.1, hpending.2]

end Session
end PollKeeper
