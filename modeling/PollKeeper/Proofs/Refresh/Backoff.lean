import PollKeeper.Proofs.Refresh.Ticks
import PollKeeper.Time.ZoneHistories

/-!
# Back-off

A refresh that fails comes back into line with one more attempt, to be tried after a pause. It stays like that,
whatever is asked for, until a tick takes it again; and so its failures add up until it is given up. But if
its poll is asked for while the tick still holds it, the new refresh is in line first. Then the failure
is forgotten, and the poll is tried again at once.
-/

namespace PollKeeper

open Time Service

namespace Session

section

variable [ZoneClocks] {w : Session} {e : SessionEvent} {key : PollKey} {r : Refresh} {n : Nat} {t : Instant}
  {events : List SessionEvent}

/-- The refresh of a poll is in line after some failures, and not to be tried before an instant. -/
def Waits (w : Session) (key : PollKey) (failures : Nat) (nextTry : Instant) : Prop :=
  ∃ r ∈ w.inLine? key, r.attempts = failures ∧ r.nextTry = nextTry

instance (key : PollKey) (failures : Nat) (nextTry : Instant) : Decidable (w.Waits key failures nextTry) :=
  inferInstanceAs (Decidable (∃ r ∈ w.inLine? key, r.attempts = failures ∧ r.nextTry = nextTry))

theorem Waits.react (h : w.Waits key n t) (hw : w.Healthy)
    (hline : ((w.react e).inLine? key).isSome) : (w.react e).Waits key n t := by
  obtain ⟨r, hr, rfl, rfl⟩ := h
  obtain ⟨r', hr'⟩ := Option.isSome_iff_exists.mp hline
  have hstays := (effect_react hw e).line.stays key r r' hr hr'
  exact ⟨r', hr', hstays.attempts, hstays.nextTry⟩

/-- As long as it is in line, nothing changes its attempts or its next try. -/
theorem Waits.after (h : w.Waits key n t) (hw : w.Healthy)
    (hline : w.Throughout (fun v => (v.inLine? key).isSome) events) :
    (w.after events).Waits key n t := by
  induction events generalizing w with
  | nil => exact h
  | cons e rest ih => exact ih (h.react hw hline.2.head) (hw.react e) hline.2

theorem Waits.takes (h : w.Waits key n t) (hw : w.Healthy) {start : Instant} (htakes : w.Takes start r)
    (hkey : r.key = key) : r.attempts = n ∧ t ≤ start := by
  subst hkey
  obtain ⟨r', hr', rfl, rfl⟩ := h
  obtain rfl := Option.some.inj (hr'.symm.trans (htakes.inLine hw))
  exact ⟨rfl, htakes.due⟩

/-- While a tick holds a refresh, a poll comes into line only because it is asked for. -/
theorem inLine?_of_held (hw : w.Healthy) (hheld : w.Throughout (·.inFlight? = some r) events)
    {old : Refresh} (hold : (w.after events).inLine? key = some old) :
    (∃ first, w.inLine? key = some first ∧ first.Stays old) ∨
      old.attempts = 0 ∧ w.Sometime (fun v e => v.Asks e old.nextTry key) events := by
  induction events generalizing w with
  | nil => exact .inl ⟨old, hold, .refl old⟩
  | cons e rest ih =>
    obtain ⟨-, hrest⟩ := hheld
    rcases ih (hw.react e) hrest hold with ⟨next, hnext, hstays⟩ | ⟨hattempts, hasked⟩
    · have hline := (effect_react hw e).line
      cases hfirst : w.inLine? key with
      | some first => exact .inl ⟨first, rfl, (hline.stays key first next hfirst hnext).trans hstays⟩
      | none =>
        refine .inr ?_
        rcases hline.comes key next hfirst hnext with ⟨hasks, hnew⟩ | ⟨r', now, -, -, hended⟩
        · exact ⟨hstays.attempts.trans hnew, .inl (hstays.nextTry ▸ hasks)⟩
        · exact absurd hended (report_ne_ended hw hrest.head _)
    · exact .inr ⟨hattempts, .inr hasked⟩

/-- A poll in line whose refresh is held was asked for since the tick took that. -/
theorem HoldsSince.asked {before during : List SessionEvent} {start : Instant}
    (h : w.HoldsSince before start r during) (hw : w.Healthy) {old : Refresh}
    (hold : (w.after (before ++ .tick (.begin start) :: during)).inLine? r.key = some old) :
    old.attempts = 0 ∧ ((w.after before).react (.tick (.begin start))).Sometime
      (fun v e => v.Asks e old.nextTry r.key) during := by
  have hbefore := hw.after before
  rw [after_append] at hold
  refine (inLine?_of_held (hbefore.react _) h.held hold).resolve_left ?_
  rintro ⟨first, hfirst, -⟩
  cases (h.takes.left hbefore).symm.trans hfirst

/-- The tick that holds a refresh fails and tries it again: it is in line with one more attempt, unless
another refresh of its poll was there before, which then stays as it is. -/
theorem waits_of_retrying (hw : w.Healthy) (hheld : w.inFlight? = some r)
    (hended : w.report e = .ended (.retrying n)) (hclock : e.failsAt? = some t) :
    n = r.attempts + 1 ∧ n < w.scheduler.config.maxTries ∧
      (w.inLine? r.key = none → (w.react e).Waits r.key n (t.plus w.scheduler.config.retryPause)) ∧
      ∀ old, w.inLine? r.key = some old → (w.react e).Waits r.key old.attempts old.nextTry := by
  cases (ends_of_report hw hended).1 with
  | failed hheld' hclock' hsettles =>
    obtain rfl := Option.some.inj (hheld.symm.trans hheld')
    obtain rfl := Option.some.inj (hclock.symm.trans hclock')
    generalize hqueue : (w.react e).scheduler.queue = q at hsettles
    cases hsettles with
    | retrying hleft =>
      have hline : (w.react e).inLine? r.key = _ :=
        (congrArg (RefreshQueue.get? · r.key) hqueue).trans
          ((RefreshQueue.get?_upsert _ _ _).trans (if_pos rfl))
      refine ⟨rfl, hleft, fun hnone => ?_, fun old hold => ?_⟩
      · have hnone' : w.scheduler.queue.get? r.key = none := hnone
        rw [hnone'] at hline
        exact ⟨_, hline, rfl, rfl⟩
      · have hold' : w.scheduler.queue.get? r.key = some old := hold
        rw [hold'] at hline
        exact ⟨_, hline, rfl, rfl⟩

/-- The refresh of a poll is in line or held by the tick. -/
def UnderWay (key : PollKey) (w : Session) : Prop :=
  (w.inLine? key).isSome ∨ ∃ r ∈ w.inFlight?, r.key = key

instance (key : PollKey) (w : Session) : Decidable (w.UnderWay key) :=
  inferInstanceAs (Decidable ((w.inLine? key).isSome ∨ ∃ r ∈ w.inFlight?, r.key = key))

/-- The refresh of a poll is asked for while the tick holds it. -/
def AskedInFlight (key : PollKey) (w : Session) (e : SessionEvent) : Prop :=
  (∃ r, w.inFlight? = some r ∧ r.key = key) ∧ ∃ now, w.Asks e now key

/-- How often the refresh of a poll under way has failed; there are not two of them. -/
inductive HasFailed (w : Session) (key : PollKey) (failures : Nat) : Prop where
  | inLine (r : Refresh) (hline : w.inLine? key = some r) (hattempts : r.attempts = failures)
      (hfree : ∀ r, w.inFlight? = some r → r.key ≠ key)
  | inFlight (r : Refresh) (hheld : w.inFlight? = some r) (hkey : r.key = key)
      (hattempts : r.attempts = failures) (hnone : w.inLine? key = none)

def isRetry (key : PollKey) (w : Session) (e : SessionEvent) : Bool :=
  match w.inFlight?, w.report e with
  | some r, .ended (.retrying _) => r.key = key
  | _, _ => false

/-- How often the refresh of a poll fails in a run and is tried again. -/
def retries (key : PollKey) (w : Session) : List SessionEvent → Nat
  | [] => 0
  | e :: rest => (if w.isRetry key e then 1 else 0) + retries key (w.react e) rest

theorem retries_append (key : PollKey) (w : Session) (events more : List SessionEvent) :
    w.retries key (events ++ more) = w.retries key events + (w.after events).retries key more := by
  induction events generalizing w with
  | nil => exact (Nat.zero_add _).symm
  | cons e rest ih =>
    rw [List.cons_append, retries, ih, retries, Nat.add_assoc]
    rfl

theorem isRetry_iff : w.isRetry key e = true ↔
    ∃ r n, w.inFlight? = some r ∧ r.key = key ∧ w.report e = .ended (.retrying n) := by
  simp only [isRetry]
  split
  · next r n hheld hended => simp [hheld, hended]
  · next hother =>
    simp only [Bool.false_eq_true, false_iff]
    rintro ⟨r, n, hheld, -, hended⟩
    exact hother r n hheld hended

/-- A refresh that is held and not asked for comes back into line only when it has failed. -/
theorem retrying_of_comes (hw : w.Healthy) (hheld : w.inFlight? = some r)
    (hasks : ¬ w.AskedInFlight r.key e) (hnone : w.inLine? r.key = none) {r' : Refresh}
    (hr' : (w.react e).inLine? r.key = some r') :
    r'.attempts = r.attempts + 1 ∧ w.report e = .ended (.retrying r'.attempts) := by
  rcases (effect_react hw e).line.comes r.key r' hnone hr' with ⟨hasked, -⟩ | ⟨s, now, hs, rfl, hended⟩
  · exact absurd ⟨⟨r, hheld, rfl⟩, r'.nextTry, hasked⟩ hasks
  · obtain rfl := Option.some.inj (hheld.symm.trans hs)
    exact ⟨rfl, hended⟩

private theorem isRetry_of_not_held (hfree : ∀ r, w.inFlight? = some r → r.key ≠ key) :
    w.isRetry key e = false := by
  refine Bool.eq_false_iff.mpr fun hretry => ?_
  obtain ⟨r, -, hheld, hkey, -⟩ := isRetry_iff.mp hretry
  exact hfree r hheld hkey

private theorem isRetry_of_still_held (hw : w.Healthy) (hheld : (w.react e).inFlight? = some r) :
    w.isRetry key e = false := by
  refine Bool.eq_false_iff.mpr fun hretry => ?_
  obtain ⟨-, n, -, -, hended⟩ := isRetry_iff.mp hretry
  exact report_ne_ended hw hheld _ hended

theorem HasFailed.react (h : w.HasFailed key n) (hw : w.Healthy) (hasks : ¬ w.AskedInFlight key e)
    (hunder : (w.react e).UnderWay key) :
    (w.react e).HasFailed key (n + if w.isRetry key e then 1 else 0) := by
  cases h with
  | inLine r hr hattempts hfree =>
    rw [isRetry_of_not_held hfree]
    by_cases hheld : ∃ r' ∈ (w.react e).inFlight?, r'.key = key
    · -- The tick has just taken it.
      obtain ⟨r', hheld, rfl⟩ := hheld
      rcases inFlight?_react hw hheld with hold | ⟨now, rfl, htakes⟩
      · exact absurd rfl (hfree r' hold)
      · obtain rfl := Option.some.inj (hr.symm.trans (htakes.inLine hw))
        exact .inFlight r hheld rfl hattempts (htakes.left hw)
    · obtain ⟨r', hr'⟩ := Option.isSome_iff_exists.mp (hunder.resolve_right hheld)
      have hstays := (effect_react hw e).line.stays key r r' hr hr'
      exact .inLine r' hr' (hstays.attempts.trans hattempts) fun s hs hkey => hheld ⟨s, hs, hkey⟩
  | inFlight r hheld hkey hattempts hnone =>
    subst hkey
    by_cases hstill : ∃ r' ∈ (w.react e).inFlight?, r'.key = r.key
    · obtain ⟨r', hheld', -⟩ := hstill
      rw [isRetry_of_still_held hw hheld']
      rcases inFlight?_react hw hheld' with hold | ⟨now, rfl, htakes⟩
      · obtain rfl := Option.some.inj (hheld.symm.trans hold)
        refine .inFlight r hheld' rfl hattempts (Option.eq_none_iff_forall_ne_some.mpr fun r₁ hr₁ => ?_)
        exact report_ne_ended hw hheld' _ (retrying_of_comes hw hheld hasks hnone hr₁).2
      · cases (inFlight?_of_resting htakes.resting).symm.trans hheld
    · obtain ⟨r', hr'⟩ := Option.isSome_iff_exists.mp (hunder.resolve_right hstill)
      obtain ⟨hmore, hended⟩ := retrying_of_comes hw hheld hasks hnone hr'
      rw [isRetry_iff.mpr ⟨r, _, hheld, rfl, hended⟩]
      exact .inLine r' hr' (hmore.trans (congrArg (· + 1) hattempts)) fun s hs hkey => hstill ⟨s, hs, hkey⟩

/-- As long as nobody asks for a refresh while the tick holds it, each of its failures counts. -/
theorem HasFailed.after (h : w.HasFailed key n) (hw : w.Healthy)
    (hasks : ¬ w.Sometime (AskedInFlight key) events) (hunder : w.Throughout (UnderWay key) events) :
    (w.after events).HasFailed key (n + w.retries key events) := by
  induction events generalizing w n with
  | nil => exact h
  | cons e rest ih =>
    obtain ⟨hfirst, hrest⟩ := not_or.mp hasks
    have hnext := ih (h.react hw hfirst hunder.2.head) (hw.react e) hrest hunder.2
    rw [Nat.add_assoc] at hnext
    exact hnext

/-- Whether one more failure is the last one depends on the number of those before it. -/
theorem HasFailed.ended (h : w.HasFailed key n) (hw : w.Healthy) (hheld : w.inFlight? = some r)
    (hkey : r.key = key) {outcome : TickOutcome} (hended : w.report e = .ended outcome) :
    outcome = .delivered ∨ outcome = .missing ∨
      outcome = if w.scheduler.config.maxTries ≤ n + 1 then .exhausted (n + 1) else .retrying (n + 1) := by
  have hattempts : r.attempts = n := by
    cases h with
    | inLine _ _ _ hfree => exact absurd hkey (hfree r hheld)
    | inFlight r' hheld' _ hattempts _ =>
      obtain rfl := Option.some.inj (hheld.symm.trans hheld')
      exact hattempts
  cases (ends_of_report hw hended).1 with
  | idle now hresting => cases (inFlight?_of_resting hresting).symm.trans hheld
  | delivered => exact .inl rfl
  | failed hheld' hclock hsettles =>
    obtain rfl := Option.some.inj (hheld.symm.trans hheld')
    rw [← hattempts]
    generalize (w.react e).scheduler.queue = q at hsettles
    cases hsettles with
    | missing => exact .inr (.inl rfl)
    | exhausted hlast => exact .inr (.inr (if_pos hlast).symm)
    | retrying hleft => exact .inr (.inr (if_neg (Nat.not_le_of_lt hleft)).symm)

/-- A refresh that fails and is tried again was taken by a tick and has failed once more. It waits for its
next try with that many attempts if and only if its poll is not in line already when the tick ends. If it is,
it was asked for while the tick held the refresh, and it waits as if nothing had failed. A refresh that waits
keeps its attempts and its next try until it leaves the line, and no tick takes it before. And as long as
nobody asks for it while a tick holds it, its failures add up, until it has been tried often enough. -/
theorem failures_back_off (config : SchedulerConfig) (events : List SessionEvent) :
    let w := (fresh config).after events
    (∀ e n, w.report e = .ended (.retrying n) →
      ∃ r now before start during, w.inFlight? = some r ∧ e.failsAt? = some now ∧
        events = before ++ .tick (.begin start) :: during ∧
        (fresh config).HoldsSince before start r during ∧
        n = r.attempts + 1 ∧ n < config.maxTries ∧
        ((w.react e).Waits r.key n (now.plus config.retryPause) ↔ w.inLine? r.key = none) ∧
        ∀ old, w.inLine? r.key = some old →
          (w.react e).Waits r.key 0 old.nextTry ∧
          (((fresh config).after before).react (.tick (.begin start))).Sometime
            (fun v e' => v.Asks e' old.nextTry r.key) during) ∧
      (∀ key n t rest, w.Waits key n t → w.Throughout (fun v => (v.inLine? key).isSome) rest →
        (w.after rest).Waits key n t ∧
        ∀ start r, (w.after rest).Takes start r → r.key = key → r.attempts = n ∧ t ≤ start) ∧
      ∀ key n rest, w.HasFailed key n → w.Throughout (UnderWay key) rest →
        ¬ w.Sometime (AskedInFlight key) rest →
        (w.after rest).HasFailed key (n + w.retries key rest) ∧
        ∀ r e outcome, (w.after rest).inFlight? = some r → r.key = key →
          (w.after rest).report e = .ended outcome →
          outcome = .delivered ∨ outcome = .missing ∨
            outcome = if config.maxTries ≤ n + w.retries key rest + 1
              then .exhausted (n + w.retries key rest + 1)
              else .retrying (n + w.retries key rest + 1) := by
  intro w
  have hstart : (fresh config).Healthy := healthy_fresh config
  have hw : w.Healthy := hstart.after events
  have hconfig : ∀ rest, (w.after rest).scheduler.config = config := fun rest =>
    (config_after hw rest).trans (config_after hstart events)
  refine ⟨fun e n hended => ?_, fun key n t rest hwaits hline => ?_,
    fun key n rest hfailed hunder hasks => ?_⟩
  · cases (ends_of_report hw hended).1 with
    | @failed _ r now _ hheld hclock =>
      obtain ⟨before, start, during, hevents, hholds⟩ := holdsSince_of_inFlight? hstart rfl hheld
      obtain ⟨hattempts, hleft, hfree, hmerged⟩ := waits_of_retrying hw hheld hended hclock
      rw [show w.scheduler.config = config from hconfig []] at hleft hfree
      have hasked := fun old (hold : w.inLine? r.key = some old) =>
        hholds.asked hstart (by rwa [← hevents])
      refine ⟨r, now, before, start, during, hheld, hclock, hevents, hholds, hattempts, hleft,
        ⟨fun hwaits => ?_, hfree⟩, fun old hold => ?_⟩
      · refine Option.eq_none_iff_forall_ne_some.mpr fun old hold => ?_
        -- What is in line has no failures behind it.
        obtain ⟨s, hs, hfailures, -⟩ := hwaits
        obtain ⟨s', hs', hfailures', -⟩ := hmerged old hold
        obtain rfl := Option.some.inj (hs.symm.trans hs')
        have hnone := (hasked old hold).1
        omega
      · obtain ⟨hnone, hsometime⟩ := hasked old hold
        exact ⟨hnone ▸ hmerged old hold, hsometime⟩
  · have hlast := hwaits.after hw hline
    exact ⟨hlast, fun start r htakes hkey => hlast.takes (hw.after rest) htakes hkey⟩
  · have hlast := hfailed.after hw hasks hunder
    refine ⟨hlast, fun r e outcome hheld hkey hended => ?_⟩
    have houtcome := hlast.ended (hw.after rest) hheld hkey hended
    rwa [hconfig rest] at houtcome

end

open ZoneHistories

def callLunch (now : Instant) : List SessionEvent := [.tick (.begin now), .tick (.read now)]

def refuseLunch (now : Instant) : SessionEvent := .tick (.refuse now .rateLimited)

/-- The first failure counts, though the poll is asked for in the pause. Two failures later the refresh is
given up. -/
theorem failures_back_off_of_refused :
    let second := Instant.plus .earliest (.ofSeconds 1)
    let w := (fresh .everySecond).after (requestLunch ++ callLunch .earliest)
    let v := w.react (refuseLunch .earliest)
    let third := second.plus (.ofSeconds 1)
    let rest := .request second ⟨1, 7⟩ :: callLunch second ++ refuseLunch second :: callLunch third
    v.Waits ⟨1, 7⟩ 1 second ∧ (v.react (.request second ⟨1, 7⟩)).Waits ⟨1, 7⟩ 1 second ∧
      (v.after rest).HasFailed ⟨1, 7⟩ 2 ∧
      (v.after rest).report (refuseLunch third) = .ended (.exhausted 3) := by
  intro second w v third rest
  obtain ⟨hreport, hheld, hnone, hfree, hline, hunder, hretry, hlast⟩ :
      w.report (refuseLunch .earliest) = .ended (.retrying 1) ∧
        w.inFlight? = some ⟨⟨1, 7⟩, second, .earliest, 0⟩ ∧ w.inLine? ⟨1, 7⟩ = none ∧
        v.inFlight? = none ∧
        v.Throughout (fun v => (v.inLine? ⟨1, 7⟩).isSome) [.request second ⟨1, 7⟩] ∧
        v.Throughout (UnderWay ⟨1, 7⟩) rest ∧ v.retries ⟨1, 7⟩ rest = 1 ∧
        (v.after rest).report (refuseLunch third) = .ended (.exhausted 3) := by decide +kernel
  have hfirst : v.Waits ⟨1, 7⟩ 1 second := by
    obtain ⟨r, now, -, -, -, hheld', hclock, -, -, -, -, hiff, -⟩ :=
      (failures_back_off .everySecond (requestLunch ++ callLunch .earliest)).1 _ 1 hreport
    obtain rfl := Option.some.inj (hheld.symm.trans hheld')
    obtain rfl := Option.some.inj hclock
    exact hiff.mpr hnone
  have hfailed : v.HasFailed ⟨1, 7⟩ 1 := by
    obtain ⟨r, hr, hattempts, -⟩ := hfirst
    exact .inLine r hr hattempts fun r' hr' => (by cases hfree.symm.trans hr')
  have hunasked : ¬ v.Sometime (AskedInFlight ⟨1, 7⟩) rest := by
    rintro (⟨⟨r, hr, -⟩, -⟩ | ⟨-, _, ⟨⟩⟩ | ⟨-, _, ⟨⟩⟩ | ⟨-, _, ⟨⟩⟩ | ⟨-, _, ⟨⟩⟩ | ⟨-, _, ⟨⟩⟩ | hnone)
    · cases hfree.symm.trans hr
    · exact hnone
  obtain ⟨-, hwaits, hadd⟩ := failures_back_off .everySecond
    (requestLunch ++ callLunch .earliest ++ [refuseLunch .earliest])
  rw [after_concat] at hwaits hadd
  have hmore : (v.after rest).HasFailed ⟨1, 7⟩ (1 + v.retries ⟨1, 7⟩ rest) :=
    (hadd ⟨1, 7⟩ 1 rest hfailed hunder hunasked).1
  rw [hretry] at hmore
  exact ⟨hfirst, (hwaits _ _ _ _ hfirst hline).1, hmore, hlast⟩

/-- If the poll is asked for during the call, its refresh is in line without a failure behind it and may be
tried at once. If that happens in each attempt, the refresh is still tried again after the last attempt that
it may have. -/
theorem failures_forgotten :
    let attempt := callLunch .earliest ++ [.request .earliest ⟨1, 7⟩, refuseLunch .earliest]
    let start := (fresh .everySecond).after requestLunch
    let w := start.after (callLunch .earliest ++ [.request .earliest ⟨1, 7⟩])
    let v := w.react (refuseLunch .earliest)
    w.report (refuseLunch .earliest) = .ended (.retrying 1) ∧
      ¬ v.Waits ⟨1, 7⟩ 1 (.plus .earliest SchedulerConfig.everySecond.retryPause) ∧
      v.Waits ⟨1, 7⟩ 0 .earliest ∧
      start.retries ⟨1, 7⟩ (attempt ++ attempt ++ attempt) = SchedulerConfig.everySecond.maxTries := by
  decide +kernel

end Session
end PollKeeper
