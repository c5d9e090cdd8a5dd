import Mathlib.Data.List.Induction
import PollKeeper.Proofs.Refresh.WholeSweep
import PollKeeper.Time.ZoneHistories

/-!
# Final refreshes

An event gives a poll its end when it inserts the poll or changes its duration. From then on the poll awaits
its final refresh, until the first event that notes one. As long as no sweep is interrupted, each end gets
one final refresh, by the first sweep after it. A sweep that has listed the poll for its old end may note
the refresh when the poll has a new one already; then the new end gets none.
-/

namespace PollKeeper

open Time Service

/-- The event belongs to a sweep that may be interrupted. -/
def SessionEvent.isPhase : SessionEvent → Bool
  | .beginSweep .. => true
  | .advanceSweep .. => true
  | _ => false

namespace Session

variable {w : Session} {key : PollKey} {e : SessionEvent} {events : List SessionEvent}

/-- The event notes the final refresh of the poll. -/
def Notes (key : PollKey) (w : Session) (e : SessionEvent) : Prop := key ∈ w.noted e

instance (key : PollKey) (w : Session) (e : SessionEvent) : Decidable (w.Notes key e) :=
  inferInstanceAs (Decidable (key ∈ w.noted e))

/-- The event lists the poll as awaiting its final refresh. -/
def Lists (key : PollKey) (w : Session) (e : SessionEvent) : Prop := key ∈ w.listed e

instance (key : PollKey) (w : Session) (e : SessionEvent) : Decidable (w.Lists key e) :=
  inferInstanceAs (Decidable (key ∈ w.listed e))

/-- A sweep looks for ended polls, with the clock reading at its start. -/
inductive Queries (w : Session) : SessionEvent → Instant → Prop where
  | swept (now : Instant) (h : (outcome (sweepEdits now) w.service).1.isOk) :
      w.Queries (.sweepEdits now) now
  | advanced (i : Nat) (now : Instant) {started : Instant}
      (h : w.sweeps i = some (.acknowledged started)) : w.Queries (.advanceSweep i now) started

theorem lists_iff (h : w.Healthy) :
    w.Lists key e ↔ ∃ started, w.Queries e started ∧
      ∃ r, w.tables.row? key = some r ∧ r.finalRefreshed = 0 ∧ started.IsPast r.endAt := by
  constructor
  · intro hlists
    cases e with
    | sweepEdits now =>
      obtain ⟨hok, hrow⟩ := (mem_finalRequests h.coherent h.distinct).mp hlists
      exact ⟨now, .swept now hok, hrow⟩
    | advanceSweep i now =>
      simp only [Lists, listed] at hlists
      split at hlists
      · next started hsweep =>
        rw [endedPolls_eq h.coherent] at hlists
        exact ⟨started, .advanced i now hsweep, (Tables.mem_awaitingFinal h.distinct).mp hlists⟩
      · cases hlists
    | _ => cases hlists
  · rintro ⟨started, hqueries, hrow⟩
    cases hqueries with
    | swept now hok => exact (mem_finalRequests h.coherent h.distinct).mpr ⟨hok, hrow⟩
    | advanced i now hsweep =>
      simp only [Lists, listed, hsweep]
      rw [endedPolls_eq h.coherent]
      exact (Tables.mem_awaitingFinal h.distinct).mpr hrow

theorem Queries.unique {now now' : Instant} (h : w.Queries e now) (h' : w.Queries e now') :
    now' = now := by
  cases h with
  | swept now hok =>
    cases h'
    rfl
  | advanced i now hsweep =>
    cases h' with
    | advanced _ _ hsweep' =>
      cases hsweep.symm.trans hsweep'
      rfl

/-- A sweep under way has listed the poll and not yet noted its final refresh. -/
def HasListed (key : PollKey) (w : Session) : Prop := ∃ i p, w.sweeps i = some p ∧ key ∈ p.listed

private theorem notes_cases (hnotes : w.Notes key e) : w.HasListed key ∨ w.Lists key e := by
  cases e with
  | sweepEdits now => exact .inr hnotes
  | advanceSweep i now =>
    simp only [Notes, noted] at hnotes
    cases hp : w.sweeps i with
    | none =>
      rw [hp] at hnotes
      cases hnotes
    | some p =>
      rw [hp] at hnotes
      refine .inl ⟨i, p, hp, ?_⟩
      cases p with
      | askedEnded found => exact hnotes
      | _ => cases hnotes
  | _ => cases hnotes

private theorem hasListed_withSweep {i : Nat} {p : Option SweepPhase × Service}
    (h : (w.withSweep i p).HasListed key) :
    w.HasListed key ∨ ∃ p', p.1 = some p' ∧ key ∈ p'.listed := by
  obtain ⟨j, p', hp', hkey⟩ := h
  simp only [withSweep] at hp'
  split at hp'
  · exact .inr ⟨p', hp', hkey⟩
  · exact .inl ⟨j, p', hp', hkey⟩

/-- A sweep that nothing interrupts succeeds after the end of the poll. -/
def SweepsPast (key : PollKey) (w : Session) : SessionEvent → Prop
  | .sweepEdits now => (outcome (sweepEdits now) w.service).1.isOk ∧
      ∃ r ∈ w.tables.row? key, now.IsPast r.endAt
  | _ => False

instance (key : PollKey) (w : Session) : ∀ e, Decidable (w.SweepsPast key e)
  | .sweepEdits now => inferInstanceAs (Decidable (_ ∧ ∃ r ∈ w.tables.row? key, now.IsPast r.endAt))
  | .client .. | .request .. | .tick _ | .beginSweep .. | .advanceSweep .. | .dropSweep _
  | .sweepExpired _ | .shutdown _ | .reachable .. | .unreachable _ | .restart =>
    inferInstanceAs (Decidable False)

theorem notes_iff (h : w.Healthy) (hwhole : e.isPhase = false) :
    w.Notes key e ↔ w.SweepsPast key e ∧ ∃ r ∈ w.tables.row? key, r.finalRefreshed = 0 := by
  cases e with
  | sweepEdits now =>
    refine (mem_finalRequests h.coherent h.distinct).trans ⟨?_, ?_⟩
    · rintro ⟨hok, r, hr, hawaits, hpast⟩
      exact ⟨⟨hok, r, hr, hpast⟩, r, hr, hawaits⟩
    · rintro ⟨⟨hok, r, hr, hpast⟩, r', hr', hawaits⟩
      obtain rfl := Option.some.inj (hr.symm.trans hr')
      exact ⟨hok, r, hr, hawaits, hpast⟩
  | beginSweep i now | advanceSweep i now => cases hwhole
  | _ => simp [Notes, noted, SweepsPast]

private theorem row?_of_sweepsPast (h : w.SweepsPast key e) : ∃ r, w.tables.row? key = some r := by
  cases e with
  | sweepEdits now =>
    obtain ⟨-, r, hr, -⟩ := h
    exact ⟨r, hr⟩
  | _ => cases h

section

variable [ZoneClocks]

/-- The poll is inserted, or its duration changes. -/
def GivesEnd (key : PollKey) (w : Session) (e : SessionEvent) : Prop :=
  ∃ r' ∈ (w.react e).tables.row? key, ∀ r ∈ w.tables.row? key, r.durationSeconds ≠ r'.durationSeconds

instance (key : PollKey) (w : Session) (e : SessionEvent) : Decidable (w.GivesEnd key e) :=
  inferInstanceAs (Decidable (∃ r' ∈ (w.react e).tables.row? key,
    ∀ r ∈ w.tables.row? key, r.durationSeconds ≠ r'.durationSeconds))

private theorem finalRefreshed_of_givesEnd (h : w.Healthy) (hgives : w.GivesEnd key e) {r : PollRow}
    (hr : (w.react e).tables.row? key = some r) : r.finalRefreshed = 0 := by
  obtain ⟨r', hr', hother⟩ := hgives
  obtain rfl := Option.some.inj (hr.symm.trans hr')
  rcases (effect_react h e).tables.row key r hr with ⟨old, hold, hbecomes⟩ | ⟨-, hnew⟩
  · exact hbecomes.awaits.mpr (.inl (Ne.symm (hother old hold)))
  · exact hnew

private theorem row?_react (h : w.Healthy) (hkept : ¬ w.GivesEnd key e) {r : PollRow}
    (hr : (w.react e).tables.row? key = some r) :
    ∃ old, w.tables.row? key = some old ∧ r.endAt = old.endAt ∧
      (r.finalRefreshed = 0 ↔ old.finalRefreshed = 0 ∧ ¬ w.Notes key e) := by
  have hold : ∃ old, w.tables.row? key = some old ∧ old.durationSeconds = r.durationSeconds := by
    by_contra hnone
    exact hkept ⟨r, hr, fun old hold hsame => hnone ⟨old, hold, hsame⟩⟩
  obtain ⟨old, hold, hsame⟩ := hold
  rcases (effect_react h e).tables.row key r hr with ⟨old', hold', hbecomes⟩ | ⟨hnone, -⟩
  · obtain rfl := Option.some.inj (hold.symm.trans hold')
    refine ⟨old, hold, ?_, ?_⟩
    · rw [PollRow.endAt, PollRow.endAt, hbecomes.startAt, hsame]
    · rw [hbecomes.awaits]
      simp [hsame, Notes]
  · cases hold.symm.trans hnone

theorem row?_after (h : w.Healthy) (hkept : ¬ w.Sometime (GivesEnd key) events) {r : PollRow}
    (hr : (w.after events).tables.row? key = some r) :
    ∃ old, w.tables.row? key = some old ∧ r.endAt = old.endAt ∧
      (r.finalRefreshed = 0 ↔ old.finalRefreshed = 0 ∧ ¬ w.Sometime (Notes key) events) := by
  induction events generalizing w with
  | nil => exact ⟨r, hr, rfl, by simp [Sometime]⟩
  | cons e rest ih =>
    obtain ⟨hfirst, hrest⟩ := not_or.mp hkept
    obtain ⟨mid, hmid, hend, hawaits⟩ := ih (h.react e) hrest hr
    obtain ⟨old, hold, hend', hawaits'⟩ := row?_react h hfirst hmid
    refine ⟨old, hold, hend.trans hend', ?_⟩
    rw [hawaits, hawaits', Sometime, not_or, and_assoc]

/-- The poll awaits its final refresh as long as none was noted since it got its end. -/
theorem awaits_iff (h : w.Healthy) (hgives : w.GivesEnd key e)
    (hkept : ¬ (w.react e).Sometime (GivesEnd key) events) {r : PollRow}
    (hr : ((w.react e).after events).tables.row? key = some r) :
    r.finalRefreshed = 0 ↔ ¬ (w.react e).Sometime (Notes key) events := by
  obtain ⟨new, hnew, -, hawaits⟩ := row?_after (h.react e) hkept hr
  rw [hawaits, and_iff_right (finalRefreshed_of_givesEnd h hgives hnew)]

/-- A sweep that lists the poll asks for its refresh next. -/
theorem sweeps_of_lists (h : w.Healthy) {i : Nat} {now : Instant}
    (hlists : w.Lists key (.advanceSweep i now)) :
    ∃ found, (w.react (.advanceSweep i now)).sweeps i = some (.ended found) ∧ key ∈ found := by
  simp only [Lists, listed] at hlists
  split at hlists
  · next started hsweep =>
    have hfound := (sweeps_endedUnrefreshed h.coherent now started).1
    have hended : key ∈ w.tables.awaitingFinal started.ceilSeconds := by
      rw [endedPolls_eq h.coherent] at hlists
      exact hlists
    refine ⟨w.tables.awaitingFinal started.ceilSeconds, ?_, hended⟩
    simp only [react, hsweep, withSweep, if_true, SweepPhase.advance]
    generalize outcome (onStore (Store.endedUnrefreshed started)) w.service = o at hfound
    obtain ⟨result, s⟩ := o
    obtain rfl : result = _ := hfound
    rfl
  · cases hlists

private theorem hasListed_react (h : (w.react e).HasListed key) : w.HasListed key ∨ w.Lists key e := by
  cases e with
  | beginSweep i now =>
    rcases hasListed_withSweep h with hold | ⟨p, hp, hkey⟩
    · exact .inl hold
    · simp only [SweepPhase.start] at hp
      split at hp
      · cases hp
        cases hkey
      · cases hp
  | advanceSweep i now =>
    simp only [react] at h
    cases hp : w.sweeps i with
    | none =>
      rw [hp] at h
      exact .inl h
    | some p =>
      rw [hp] at h
      rcases hasListed_withSweep h with hold | ⟨p', hp', hkey⟩
      · exact .inl hold
      · rcases SweepPhase.mem_listed_advance hp' hkey with hlisted | ⟨started, rfl, hended⟩
        · exact .inl ⟨i, p, hp, hlisted⟩
        · refine .inr ?_
          simp only [Lists, listed, hp]
          exact hended
  | dropSweep i =>
    rcases hasListed_withSweep h with hold | ⟨p, hp, -⟩
    · exact .inl hold
    · cases hp
  | restart =>
    obtain ⟨i, p, hp, -⟩ := h
    cases hp
  | _ => exact .inl h

/-- Nothing is noted that was not listed before. -/
theorem not_notes_of_not_lists (hnone : ¬ w.HasListed key) (hlists : ¬ w.Sometime (Lists key) events) :
    ¬ w.Sometime (Notes key) events := by
  induction events generalizing w with
  | nil => exact id
  | cons e rest ih =>
    obtain ⟨hfirst, hrest⟩ := not_or.mp hlists
    refine not_or.mpr ⟨fun hnotes => ?_, ih (fun h => ?_) hrest⟩
    · exact (notes_cases hnotes).elim hnone hfirst
    · exact (hasListed_react h).elim hnone hfirst

/-- The first sweep past the end of the poll is the first event that notes its final refresh. -/
theorem sometime_notes_iff (h : w.Healthy) (hgives : w.GivesEnd key e)
    (hwhole : ∀ e' ∈ events, e'.isPhase = false)
    (hkept : ¬ (w.react e).Sometime (GivesEnd key) events) :
    (w.react e).Sometime (Notes key) events ↔ (w.react e).Sometime (SweepsPast key) events := by
  induction events using List.reverseRecOn with
  | nil => exact Iff.rfl
  | append_singleton before last ih =>
    obtain ⟨hbefore, -⟩ := not_or.mp (sometime_append.not.mp hkept)
    have hfirst := ih (fun e' he' => hwhole e' (List.mem_append_left _ he')) hbefore
    rw [sometime_append, sometime_append, ← hfirst]
    -- A sweep past the end notes the refresh if no event before it has.
    refine or_congr_right' fun hnone => ?_
    simp only [Sometime, or_false]
    rw [notes_iff ((h.react e).after before) (hwhole last (by simp))]
    refine and_iff_left_of_imp fun hpast => ?_
    obtain ⟨r, hr⟩ := row?_of_sweepsPast hpast
    exact ⟨r, hr, (awaits_iff h hgives hbefore hr).mpr hnone⟩

/-- A poll awaits its final refresh at a clock reading past its end just if no sweep has succeeded past the
end before. -/
theorem mem_awaitingFinal_iff (h : w.Healthy) (hgives : w.GivesEnd key e)
    (hwhole : ∀ e' ∈ events, e'.isPhase = false)
    (hkept : ¬ (w.react e).Sometime (GivesEnd key) events) (now : Instant) :
    key ∈ ((w.react e).after events).tables.awaitingFinal now.ceilSeconds ↔
      (∃ r ∈ ((w.react e).after events).tables.row? key, now.IsPast r.endAt) ∧
        ¬ (w.react e).Sometime (SweepsPast key) events := by
  have hafter : ((w.react e).after events).Healthy := (h.react e).after events
  rw [Tables.mem_awaitingFinal hafter.distinct, ← sometime_notes_iff h hgives hwhole hkept]
  constructor
  · rintro ⟨r, hr, hawaits, hpast⟩
    exact ⟨⟨r, hr, hpast⟩, (awaits_iff h hgives hkept hr).mp hawaits⟩
  · rintro ⟨⟨r, hr, hpast⟩, hnone⟩
    exact ⟨r, hr, (awaits_iff h hgives hkept hr).mpr hnone, hpast⟩

/-- If nothing interrupts the sweeps, each end of a poll gets one final refresh. From the event that gives
the poll its end, until it gets another one, that end stays the same. A sweep that succeeds asks just for the
refreshes of the polls with unseen edits and of those listed as awaiting their final refresh, the latter once
each, and counts them; one that fails asks for none. The poll is among those that await their final refresh
if and only if the sweep is the first that succeeds after its end. Then its refresh is in line. -/
theorem one_final_refresh (config : SchedulerConfig) {before : List SessionEvent} (rest : List SessionEvent)
    (hgives : ((fresh config).after before).GivesEnd key e)
    (hwhole : ∀ e' ∈ rest, e'.isPhase = false)
    (hkept : ¬ (((fresh config).after before).react e).Sometime (GivesEnd key) rest) :
    let start := ((fresh config).after before).react e
    let w := start.after rest
    (∀ r ∈ w.tables.row? key, ∃ new ∈ start.tables.row? key, r.endAt = new.endAt) ∧
      ∀ now : Instant,
        let unseen := w.tables.unseenSince w.scheduler.editCutoff.millis
        let ended := w.tables.awaitingFinal now.ceilSeconds
        let swept := outcome (Service.sweepEdits now) w.service
        (key ∈ ended ↔
          (∃ r ∈ w.tables.row? key, now.IsPast r.endAt) ∧ ¬ start.Sometime (SweepsPast key) rest) ∧
        (∀ n, swept.1 = .ok n →
          (w.react (.sweepEdits now)).scheduler.queue =
              w.scheduler.queue.askAll (now.plus w.scheduler.config.updateTimeout) now
                (unseen.map (·.key) ++ ended) ∧
            ended.Nodup ∧ n = unseen.length + ended.length ∧
            (key ∈ ended → ∃ r, (w.react (.sweepEdits now)).inLine? key = some r)) ∧
        ∀ fault, swept.1 = .error fault →
          (w.react (.sweepEdits now)).scheduler.queue = w.scheduler.queue := by
  intro start w
  have hbefore : ((fresh config).after before).Healthy := (healthy_fresh config).after before
  have hstart : start.Healthy := hbefore.react e
  have hw : w.Healthy := hstart.after rest
  refine ⟨fun r hr => ?_, fun now => ⟨mem_awaitingFinal_iff hbefore hgives hwhole hkept now,
    fun n hok => ?_, fun fault herror => ?_⟩⟩
  · obtain ⟨new, hnew, hend, -⟩ := row?_after hstart hkept hr
    exact ⟨new, hnew, hend⟩
  · obtain ⟨hcount, hsweeps, -⟩ := sweepEdits_of_ok hw.coherent hok
    have hqueue : (w.react (.sweepEdits now)).scheduler.queue = _ := hsweeps.queue
    refine ⟨hqueue, Tables.nodup_keysWhere hw.distinct _, hcount, fun hkey => ?_⟩
    rw [inLine?, hqueue]
    exact RefreshQueue.exists_get?_askAll hw.sound (List.mem_append_right _ hkey)
  · exact congrArg Scheduler.queue (scheduler_sweepEdits_of_error hw.coherent herror)

def afterSeconds (n : Nat) : Instant := .plus .earliest (.ofSeconds n)

end

section

open ZoneHistories

/-- A sweep at the end of the poll does not ask for its final refresh. One that starts within the second
after the end does, and the next one does not. -/
theorem one_final_refresh_of_lunch :
    let atEnd := SessionEvent.sweepEdits (afterSeconds 86400)
    let past := (afterSeconds 86400).plus ⟨1⟩
    let start := ((fresh .everySecond).after [.client (.acquire 1) rfl]).react
      (.client (.request .earliest (.ofGuild ⟨1, 0⟩ (.insert 7 .lunch))) rfl)
    let w := start.after [atEnd]
    ⟨1, 7⟩ ∉ start.tables.awaitingFinal (afterSeconds 86400).ceilSeconds ∧
      (outcome (Service.sweepEdits past) w.service).1 = .ok 1 ∧
      (w.react (.sweepEdits past)).scheduler.queue =
        w.scheduler.queue.askAll (past.plus w.scheduler.config.updateTimeout) past [⟨1, 7⟩] ∧
      (∃ r, (w.react (.sweepEdits past)).inLine? ⟨1, 7⟩ = some r) ∧
      ⟨1, 7⟩ ∉ (w.react (.sweepEdits past)).tables.awaitingFinal past.ceilSeconds := by
  intro atEnd past start w
  have hgives : ((fresh .everySecond).after [.client (.acquire 1) rfl]).GivesEnd ⟨1, 7⟩
      (.client (.request .earliest (.ofGuild ⟨1, 0⟩ (.insert 7 .lunch))) rfl) := by decide +kernel
  obtain ⟨hok, hasks⟩ : (outcome (Service.sweepEdits past) w.service).1 = .ok 1 ∧
      (w.tables.unseenSince w.scheduler.editCutoff.millis).map (·.key) ++
        w.tables.awaitingFinal past.ceilSeconds = [⟨1, 7⟩] := by decide +kernel
  obtain ⟨-, hsweeps⟩ := one_final_refresh .everySecond [atEnd] hgives (by simp [atEnd, SessionEvent.isPhase])
    (by decide +kernel)
  obtain ⟨hawaits, hsucceeds, -⟩ := hsweeps past
  obtain ⟨hqueue, -, -, hline⟩ := hsucceeds 1 hok
  rw [hasks] at hqueue
  refine ⟨fun h => ?_, hok, hqueue, hline (hawaits.mpr (by decide +kernel)), fun h => ?_⟩
  · obtain ⟨-, hearly⟩ := one_final_refresh .everySecond [] hgives (by simp) id
    exact absurd ((hearly (afterSeconds 86400)).1.mp h).1 (by decide +kernel)
  · obtain ⟨-, hlate⟩ := one_final_refresh .everySecond [atEnd, .sweepEdits past] hgives
      (by simp [atEnd, SessionEvent.isPhase]) (by decide +kernel)
    exact ((hlate past).1.mp h).2 (by decide +kernel)

end

section

variable [ZoneClocks]

/-- From the event that gives a poll its end, until it gets another one, the poll awaits its final refresh
just as long as none was noted since then. If no sweep had listed the poll by that time, it awaits the
refresh at least until a sweep lists it, and the first sweep does that which looks for ended polls with a
clock reading after the new end. What a sweep has listed is in line after its next phase. -/
theorem awaits_after_new_end (config : SchedulerConfig) {before : List SessionEvent}
    (rest : List SessionEvent)
    (hgives : ((fresh config).after before).GivesEnd key e)
    (hkept : ¬ (((fresh config).after before).react e).Sometime (GivesEnd key) rest) :
    let start := ((fresh config).after before).react e
    let w := start.after rest
    (∀ r ∈ w.tables.row? key, r.finalRefreshed = 0 ↔ ¬ start.Sometime (Notes key) rest) ∧
      (¬ start.HasListed key → ¬ start.Sometime (Lists key) rest →
        (∀ r ∈ w.tables.row? key, r.finalRefreshed = 0) ∧
        ∀ e' now, w.Queries e' now →
          (w.Lists key e' ↔ ∃ r ∈ w.tables.row? key, now.IsPast r.endAt)) ∧
      (∀ now, w.Lists key (.sweepEdits now) → ∃ r, (w.react (.sweepEdits now)).inLine? key = some r) ∧
      ∀ i now later, w.Lists key (.advanceSweep i now) →
        ∃ r, ((w.react (.advanceSweep i now)).react (.advanceSweep i later)).inLine? key = some r := by
  intro start w
  have hbefore : ((fresh config).after before).Healthy := (healthy_fresh config).after before
  have hw : w.Healthy := (hbefore.react e).after rest
  have hawaits : ∀ r ∈ w.tables.row? key, r.finalRefreshed = 0 ↔ ¬ start.Sometime (Notes key) rest :=
    fun r hr => awaits_iff hbefore hgives hkept hr
  refine ⟨hawaits, fun hunlisted hlists => ?_, fun now hlists => ?_, fun i now later hlists => ?_⟩
  · have hopen : ∀ r ∈ w.tables.row? key, r.finalRefreshed = 0 :=
      fun r hr => (hawaits r hr).mpr (not_notes_of_not_lists hunlisted hlists)
    refine ⟨hopen, fun e' now hqueries => (lists_iff hw).trans ⟨?_, ?_⟩⟩
    · rintro ⟨now', hqueries', r, hr, -, hpast⟩
      exact ⟨r, hr, hqueries.unique hqueries' ▸ hpast⟩
    · rintro ⟨r, hr, hpast⟩
      exact ⟨now, hqueries, r, hr, hopen r hr, hpast⟩
  · exact inLine_of_asks hw (.swept now (List.mem_append_right _ hlists))
  · obtain ⟨found, hfound, hkey⟩ := sweeps_of_lists hw hlists
    exact inLine_of_asks (hw.react _) (.advanced later i (.ended found) hfound hkey)

def extendLunch : SessionEvent :=
  .client (.request .earliest (.ofGuild ⟨1, 0⟩ (.update 7
    { Poll.lunch with settings := { Settings.standard with
      seconds := 172800
      seconds_pos := by decide
      seconds_le := by decide } }))) rfl

end

open ZoneHistories

/-- The poll is inserted and has its final refresh; then its duration changes. A sweep past the first end
does not list it, and one past the new end does. -/
theorem awaits_after_new_end_of_lunch :
    let before := insertLunch ++ [.sweepEdits (afterSeconds 86401)]
    let w := ((((fresh .everySecond).after before).react extendLunch).after
      [.sweepEdits (afterSeconds 86402)])
    ¬ w.Lists ⟨1, 7⟩ (.sweepEdits (afterSeconds 172800)) ∧
      w.Lists ⟨1, 7⟩ (.sweepEdits (afterSeconds 172801)) ∧
      ∃ r, (w.react (.sweepEdits (afterSeconds 172801))).inLine? ⟨1, 7⟩ = some r := by
  intro before w
  have hgives : ((fresh .everySecond).after before).GivesEnd ⟨1, 7⟩ extendLunch := by decide +kernel
  obtain ⟨-, hlists, hline, -⟩ := awaits_after_new_end .everySecond [.sweepEdits (afterSeconds 86402)]
    hgives (by decide +kernel)
  have hunlisted : ¬ (((fresh .everySecond).after before).react extendLunch).HasListed ⟨1, 7⟩ := by
    rintro ⟨i, p, hp, -⟩
    have hnone : (((fresh .everySecond).after before).react extendLunch).sweeps i = none := rfl
    cases hnone.symm.trans hp
  have hiff := (hlists hunlisted (by decide +kernel)).2
  have hlisted : w.Lists ⟨1, 7⟩ (.sweepEdits (afterSeconds 172801)) :=
    (hiff _ _ (.swept _ (by decide +kernel))).mpr (by decide +kernel)
  refine ⟨fun h => ?_, hlisted, hline _ hlisted⟩
  exact absurd ((hiff _ _ (.swept _ (by decide +kernel))).mp h) (by decide +kernel)

/-- A sweep has listed the poll past its end and asked for its final refresh, and still has to note that. -/
def sweepBeforeNote : List SessionEvent :=
  insertLunch ++ [.beginSweep 0 (afterSeconds 86401), .advanceSweep 0 (afterSeconds 86401),
    .advanceSweep 0 (afterSeconds 86401), .advanceSweep 0 (afterSeconds 86401),
    .advanceSweep 0 (afterSeconds 86401)]

/-- The duration changes between the query of a sweep and its note. The note is then about the new end, and
no sweep asks for the refresh of the poll after that. -/
theorem new_end_unawaited :
    let before := (fresh .everySecond).after sweepBeforeNote
    let noted := (before.react extendLunch).react (.advanceSweep 0 (afterSeconds 86401))
    (fresh .everySecond).Sometime (Lists ⟨1, 7⟩) sweepBeforeNote ∧
      before.GivesEnd ⟨1, 7⟩ extendLunch ∧
      noted.sweeps 0 = none ∧ (noted.tables.row? ⟨1, 7⟩).map (·.finalRefreshed) = some 1 ∧
      noted.SweepsPast ⟨1, 7⟩ (.sweepEdits .latest) ∧
      ¬ noted.Lists ⟨1, 7⟩ (.sweepEdits .latest) ∧
      ¬ (noted.react (.sweepEdits .latest)).Lists ⟨1, 7⟩ (.sweepEdits .latest) := by
  decide +kernel

end Session
end PollKeeper
