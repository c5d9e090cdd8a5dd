import PollKeeper.Config
import PollKeeper.Proofs.Refresh.Entry
import PollKeeper.Proofs.Store.ExpirySweep
import PollKeeper.Proofs.Time.Sums

/-!
# Deadlines

From the numbers of an accepted configuration to the instants that the scheduler compares with the clock: when
a refresh times out, when it is tried again, and how long ago a poll must have ended to be deleted. Each of
these is exact to the nanosecond or the end of the range of instants.
-/

namespace PollKeeper

open Time

namespace Config

variable {c c' : Config} {now : Instant}

/-- When a refresh times out that is asked for at an instant. -/
def timeoutAt (c : Config) (now : Instant) : Instant := now.plus c.scheduler.updateTimeout

/-- When a refresh is tried again that fails at an instant. -/
def nextTryAt (c : Config) (now : Instant) : Instant := now.plus c.scheduler.retryPause

/-- Before which instant a poll must have ended that a sweep deletes. -/
def cutoffAt (c : Config) (now : Instant) : Instant := now.minus c.scheduler.retention

/-- The instants that belong to a reading of the clock, by their distances from the epoch. In a leap second
the clock counts as in the second before, for what comes after it. -/
structure ExactAt (c : Config) (now : Instant) : Prop where
  timeout : (c.timeoutAt now).IsAt
    (min (now.reading + min (60 * c.refresh.updateTimeoutMinutes) maxNat64 * 1000000000)
      Instant.latest.total)
  nextTry : (c.nextTryAt now).IsAt
    (min (now.reading + c.refresh.retryPauseSeconds * 1000000000) Instant.latest.total)
  cutoff : (c.cutoffAt now).total =
    max (now.total - min (86400 * c.refresh.deleteOffsetDays) maxNat64 * 1000000000)
      Instant.earliest.total
  /-- Out of leap seconds there is nothing to choose. -/
  plain : now.nanos < 1000000000 → now.reading = now.total ∧ (c.cutoffAt now).nanos < 1000000000

structure IsValid (c : Config) : Prop where
  maxTries : 0 < c.refresh.maxTries
  updateInterval : 0 < c.refresh.updateIntervalMillis
  editSweepInterval : 0 < c.refresh.editSweepIntervalSeconds
  expirySweepInterval : 0 < c.refresh.expirySweepIntervalSeconds
  updateTimeout : 0 < c.refresh.updateTimeoutMinutes
  retryPause : 0 < c.refresh.retryPauseSeconds
  gatewayTimeout : 0 < c.refresh.gatewayTimeoutSeconds

private theorem isValid_of_validate (h : c.validate = .ok ()) : c.IsValid := by
  have hfault : c.fault? = none := by
    cases hfault : c.fault? with
    | none => rfl
    | some fault =>
      rw [validate, hfault] at h
      cases h
  simp only [fault?, ite_eq_iff, reduceCtorEq, and_false, false_or] at hfault
  obtain ⟨-, -, -, -, htries, hperiods⟩ := hfault
  simp only [List.findSome?_eq_none_iff, List.forall_mem_cons, ite_eq_right_iff, reduceCtorEq,
    imp_false] at hperiods
  obtain ⟨hupdate, hedits, hexpiry, htimeout, hretry, hgateway, -⟩ := hperiods
  exact ⟨Nat.pos_of_ne_zero htries, Nat.pos_of_ne_zero hupdate, Nat.pos_of_ne_zero hedits,
    Nat.pos_of_ne_zero hexpiry, Nat.pos_of_ne_zero htimeout, Nat.pos_of_ne_zero hretry,
    Nat.pos_of_ne_zero hgateway⟩

theorem updateTimeout_eq (c : Config) :
    c.scheduler.updateTimeout = .ofSeconds (min (60 * c.refresh.updateTimeoutMinutes) maxNat64) :=
  congrArg (fun n => Span.ofSeconds (min n maxNat64)) (Nat.mul_comm _ 60)

theorem retention_eq (c : Config) :
    c.scheduler.retention = .ofSeconds (min (86400 * c.refresh.deleteOffsetDays) maxNat64) :=
  congrArg (fun n => Span.ofSeconds (min n maxNat64)) (Nat.mul_comm _ 86400)

private theorem IsValid.second_le_updateTimeout (hc : c.IsValid) :
    1000000000 ≤ c.scheduler.updateTimeout.nanos := by
  have hpos := hc.updateTimeout
  simp only [updateTimeout_eq, Span.ofSeconds, maxNat64]
  omega

private theorem IsValid.second_le_retryPause (hc : c.IsValid) : 1000000000 ≤ c.scheduler.retryPause.nanos :=
  Nat.le_mul_of_pos_left _ hc.retryPause

private theorem IsValid.exactAt (hc : c.IsValid) (now : Instant) : c.ExactAt now where
  timeout := by
    rw [← Span.nanos_ofSeconds, ← updateTimeout_eq]
    exact Instant.isAt_plus (.inr hc.second_le_updateTimeout)
  nextTry := by
    rw [← Span.nanos_ofSeconds]
    exact Instant.isAt_plus (.inr hc.second_le_retryPause)
  cutoff := by
    rw [← Span.nanos_ofSeconds, ← retention_eq]
    exact now.total_minus _
  plain hnow := ⟨Instant.reading_of_nanos_lt hnow, Instant.nanos_minus hnow⟩

theorem isPast_cutoffAt (hnow : now.nanos < 1000000000) {second : Int} (hmin : minSeconds ≤ second) :
    (c.cutoffAt now).IsPast second ↔ second * 1000000000 + c.scheduler.retention.nanos < now.total := by
  have htotal : (c.cutoffAt now).total = _ := now.total_minus c.scheduler.retention
  have hnanos : (c.cutoffAt now).nanos < 1000000000 := Instant.nanos_minus hnow
  simp only [Instant.IsPast]
  simp only [Instant.total, Instant.earliest] at htotal ⊢
  omega

private theorem ExactAt.timeoutAt_le (hc : c.ExactAt now) (hc' : c'.ExactAt now)
    (h : c.refresh.updateTimeoutMinutes ≤ c'.refresh.updateTimeoutMinutes) :
    c.timeoutAt now ≤ c'.timeoutAt now := hc.timeout.le hc'.timeout (by omega)

private theorem ExactAt.nextTryAt_le (hc : c.ExactAt now) (hc' : c'.ExactAt now)
    (h : c.refresh.retryPauseSeconds ≤ c'.refresh.retryPauseSeconds) :
    c.nextTryAt now ≤ c'.nextTryAt now := hc.nextTry.le hc'.nextTry (by omega)

private theorem cutoffAt_le (h : c.refresh.deleteOffsetDays ≤ c'.refresh.deleteOffsetDays) (now : Instant) :
    c'.cutoffAt now ≤ c.cutoffAt now := by
  refine Instant.minus_le_minus ?_ now
  simp only [retention_eq, Span.ofSeconds]
  omega

section Scheduler

variable {s : Scheduler} {key : PollKey} {r : Refresh} {e : RefreshError} {n : Nat}

private theorem get?_enqueue (hs : s.config = c.scheduler) (hadded : (s.enqueue now key).1 = true) :
    (s.enqueue now key).2.queue.get? key = some ⟨key, c.timeoutAt now, now, 0⟩ := by
  let asked : Refresh := ⟨key, now.plus s.config.updateTimeout, now, 0⟩
  have hnew : s.queue.get? key = none :=
    Option.isNone_iff_eq_none.mp ((s.queue.upsert_fst asked).symm.trans hadded)
  calc (s.queue.upsert asked).2.get? key = some asked := RefreshQueue.get?_upsert_of_none hnew
    _ = some ⟨key, c.timeoutAt now, now, 0⟩ := by rw [timeoutAt, ← hs]

theorem queue_settle (hs : s.config = c.scheduler) (hretry : (s.settle now r (.error e)).1 = .retrying n) :
    (s.settle now r (.error e)).2.queue = (s.queue.upsert (r.again (c.nextTryAt now))).2 := by
  -- Only one of the ways to settle has this outcome.
  have hsettles := s.settles_settle now r e
  rw [hretry] at hsettles
  generalize (s.settle now r (.error e)).2.queue = q at hsettles
  cases hsettles
  rw [hs, nextTryAt]

/-- Unless the poll was asked for again in the meantime, the failed refresh is in line as it was, for its next
try. -/
theorem get?_settle (hs : s.config = c.scheduler) (hretry : (s.settle now r (.error e)).1 = .retrying n)
    (hnone : s.queue.get? r.key = none) :
    (s.settle now r (.error e)).2.queue.get? r.key = some (r.again (c.nextTryAt now)) := by
  rw [queue_settle hs hretry]
  exact RefreshQueue.get?_upsert_again hnone (c.nextTryAt now)

end Scheduler

private theorem outcome_sweepExpired {w : Service} (hw : w.scheduler.config = c.scheduler) :
    Service.outcome (Service.sweepExpired now) w = Service.outcome (do
      let deleted ← Service.onStore (Store.deleteExpired (c.cutoffAt now))
      Service.record (.pollsDeleted deleted)
      pure deleted) w := by
  simp only [Service.sweepExpired, Service.outcome_bind, Service.outcome_get, hw, cutoffAt]

/-- The polls with that cutoff are those that ended more than the retention ago. -/
theorem deletes_cutoffAt {s : Store} (hs : s.InOrder) (hnow : now.nanos < 1000000000) :
    ∃ n s', (Store.deleteExpired (c.cutoffAt now)).outcome s = (.ok n, s') ∧
      s.database.tables.Deletes (fun key => s.locks.lockOf key.guild = .free ∧
        ∃ r, s.database.tables.row? key = some r ∧
          r.endAt * 1000000000 + c.scheduler.retention.nanos < now.total) n s'.database.tables := by
  obtain ⟨n, s', ho, hdeletes⟩ := Store.outcome_deleteExpired hs (c.cutoffAt now)
  refine ⟨n, s', ho, hdeletes.congr fun key => and_congr_right fun _ => exists_congr fun r => ?_⟩
  exact and_congr_right fun hr => (isPast_cutoffAt hnow (hs.sound.minSeconds_le_endAt hr)).symm

/-- An accepted configuration lets a refresh be tried, and none of its pauses is empty. Minutes and days become
seconds, but at most as many as 64 bits can hold. A refresh that is asked for times out, one that fails is
tried again, and a sweep looks for polls that ended, exactly as long after or before the instant as the
configuration says, or at the end of the range. No larger number in a configuration makes a timeout or a next
try earlier or a cutoff later. -/
theorem times_never_wrap (c : Config) (hc : c.validate = .ok ()) :
    (1 ≤ c.scheduler.maxTries ∧
      ∀ d ∈ [c.scheduler.updateInterval, c.scheduler.editSweepInterval, c.scheduler.expirySweepInterval,
        c.scheduler.retryPause, c.scheduler.gatewayTimeout], 0 < d.nanos) ∧
    c.scheduler.updateTimeout = .ofSeconds (min (60 * c.refresh.updateTimeoutMinutes) maxNat64) ∧
    c.scheduler.retention = .ofSeconds (min (86400 * c.refresh.deleteOffsetDays) maxNat64) ∧
    (∀ now, c.ExactAt now) ∧
    (∀ (s : Scheduler) (now : Instant), s.config = c.scheduler →
      (∀ key, (s.enqueue now key).1 = true →
        (s.enqueue now key).2.queue.get? key = some ⟨key, c.timeoutAt now, now, 0⟩) ∧
      ∀ r e n, (s.settle now r (.error e)).1 = .retrying n →
        (s.settle now r (.error e)).2.queue = (s.queue.upsert (r.again (c.nextTryAt now))).2 ∧
        (s.queue.get? r.key = none →
          (s.settle now r (.error e)).2.queue.get? r.key = some (r.again (c.nextTryAt now)))) ∧
    (∀ (w : Service) (now : Instant), w.scheduler.config = c.scheduler →
      Service.outcome (Service.sweepExpired now) w = Service.outcome (do
        let deleted ← Service.onStore (Store.deleteExpired (c.cutoffAt now))
        Service.record (.pollsDeleted deleted)
        pure deleted) w) ∧
    (∀ (events : List StoreEvent) (now : Instant), now.nanos < 1000000000 →
      let s := Store.fresh.after events
      ∃ n s', (Store.deleteExpired (c.cutoffAt now)).outcome s = (.ok n, s') ∧
        s.database.tables.Deletes (fun key => s.locks.lockOf key.guild = .free ∧
          ∃ r, s.database.tables.row? key = some r ∧
            r.endAt * 1000000000 + c.scheduler.retention.nanos < now.total) n s'.database.tables) ∧
    ∀ (c' : Config) (now : Instant), c'.validate = .ok () →
      (c.refresh.updateTimeoutMinutes ≤ c'.refresh.updateTimeoutMinutes →
        c.timeoutAt now ≤ c'.timeoutAt now) ∧
      (c.refresh.retryPauseSeconds ≤ c'.refresh.retryPauseSeconds → c.nextTryAt now ≤ c'.nextTryAt now) ∧
      (c.refresh.deleteOffsetDays ≤ c'.refresh.deleteOffsetDays → c'.cutoffAt now ≤ c.cutoffAt now) := by
  have hvalid : c.IsValid := isValid_of_validate hc
  refine ⟨⟨hvalid.maxTries, ?_⟩, c.updateTimeout_eq, c.retention_eq, hvalid.exactAt,
    fun s now hs => ⟨fun key => get?_enqueue hs,
      fun r e n hretry => ⟨queue_settle hs hretry, get?_settle hs hretry⟩⟩,
    fun w now => outcome_sweepExpired, fun events now => deletes_cutoffAt (Store.inOrder_after events),
    fun c' now hc' => ?_⟩
  · simp only [List.forall_mem_cons]
    exact ⟨Nat.mul_pos hvalid.updateInterval (by decide), Nat.mul_pos hvalid.editSweepInterval (by decide),
      Nat.mul_pos hvalid.expirySweepInterval (by decide), Nat.mul_pos hvalid.retryPause (by decide),
      Nat.mul_pos hvalid.gatewayTimeout (by decide), fun _ hd => nomatch hd⟩
  · have hexact : c.ExactAt now := hvalid.exactAt now
    have hexact' : c'.ExactAt now := (isValid_of_validate hc').exactAt now
    exact ⟨hexact.timeoutAt_le hexact', hexact.nextTryAt_le hexact', fun h => cutoffAt_le h now⟩

def longTimes : Config where
  database := ⟨"sqlite::memory:", 1⟩
  store := ⟨1, 0, 1⟩
  refresh := ⟨1, 1, 1, maxNat64, maxNat64, 1, 3, maxNat64, 0⟩

def shortTimes : Config := { longTimes with refresh := ⟨1, 1, 1, 1, 1, 1, 3, 0, 0⟩ }

/-- The longest times lead out of the range from both of its ends. -/
theorem times_never_wrap_of_long :
    let s := Scheduler.fresh longTimes.scheduler
    let r : Refresh := ⟨⟨1, 2⟩, .latest, .earliest, 0⟩
    longTimes.validate = .ok () ∧ shortTimes.validate = .ok () ∧
      (s.enqueue .earliest ⟨1, 2⟩).2.queue.get? ⟨1, 2⟩ = some r ∧
      (s.settle .earliest r (.error (.gateway .rateLimited))).2.queue.get? ⟨1, 2⟩ = some (r.again .latest) ∧
      longTimes.cutoffAt .latest = .earliest ∧
      (∃ n s', (Store.deleteExpired .earliest).outcome .fresh = (.ok n, s')) ∧
      shortTimes.timeoutAt .earliest ≤ longTimes.timeoutAt .earliest := by
  intro s r
  have hlong : longTimes.validate = .ok () := rfl
  have hshort : shortTimes.validate = .ok () := rfl
  obtain ⟨-, -, -, hexact, hscheduler, -, hdeletes, -⟩ := times_never_wrap longTimes hlong
  obtain ⟨-, -, -, -, -, -, -, hlarger⟩ := times_never_wrap shortTimes hshort
  have htimeout : longTimes.timeoutAt .earliest = .latest :=
    (hexact .earliest).timeout.eq Instant.isAt_latest
  have hnextTry : longTimes.nextTryAt .earliest = .latest :=
    (hexact .earliest).nextTry.eq Instant.isAt_latest
  have hcutoff : longTimes.cutoffAt .latest = .earliest :=
    Instant.IsAt.eq ⟨(hexact .latest).cutoff, ((hexact .latest).plain (by decide)).2⟩ ⟨rfl, by decide⟩
  obtain ⟨henqueue, hsettle⟩ := hscheduler s .earliest rfl
  obtain ⟨n, s', ho, -⟩ := hdeletes [] .latest (by decide)
  refine ⟨hlong, hshort, ?_, ?_, hcutoff, ⟨n, s', ?_⟩, (hlarger longTimes .earliest hlong).1 (by decide)⟩
  · rw [henqueue ⟨1, 2⟩ rfl, htimeout]
  · rw [(hsettle r (.gateway .rateLimited) 1 rfl).2 rfl, hnextTry]
  · rwa [hcutoff] at ho

end Config
end PollKeeper
