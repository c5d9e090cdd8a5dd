import PollKeeper.Proofs.Refresh.Backoff
import PollKeeper.Proofs.Refresh.Delivery
import PollKeeper.Time.ZoneHistories

/-!
# Budgets

From the event that brings a poll into line to the one with which its refresh is under way no more, the
refresh has a limited number of attempts. Each that fails is answered with its number, and with the last of
them the refresh is given up. The attempts are apart by the pause after a failure, and none is made after the
timeout. Asking for the poll in the meantime puts off the timeout and changes nothing else, as long as that
does not happen while a tick holds the refresh.
-/

namespace PollKeeper

open Time Service

def TickStage.attempt? : TickStage → Option Attempt
  | posting a => some a
  | acknowledging a => some a
  | _ => none

private theorem TickStage.attempt?_move [ZoneClocks] {s : Service} (hs : s.store.Coherent)
    {stage : TickStage} {a : Attempt} (h : stage.attempt? = some a) (m : TickMove) :
    (stage.move s m).2.2.attempt? = some a ∨ (stage.move s m).2.2 = .resting := by
  have hmoves := moves hs stage m
  generalize stage.move s m = o at hmoves
  cases hmoves with
  | delivers | ignored => exact .inl h
  | idle | takes | calls => cases h
  | panics | fails | acknowledges => exact .inr rfl

namespace Session

variable {w : Session} {e : SessionEvent} {key : PollKey} {r : Refresh} {n : Nat}
  {events : List SessionEvent}

/-- No refresh that is in line or held has used up its attempts. -/
structure Spares (w : Session) : Prop where
  inLine : ∀ key r, w.inLine? key = some r → r.attempts < w.scheduler.config.maxTries
  inFlight : ∀ r, w.inFlight? = some r → r.attempts < w.scheduler.config.maxTries

private theorem spares_fresh (config : SchedulerConfig) : (fresh config).Spares :=
  ⟨fun _ _ h => (by cases h), fun _ h => (by cases h)⟩

theorem Spares.failures_lt (h : w.Spares) (hfailed : w.HasFailed key n) :
    n < w.scheduler.config.maxTries := by
  cases hfailed with
  | inLine r hr hattempts => exact hattempts ▸ h.inLine key r hr
  | inFlight r hr _ hattempts => exact hattempts ▸ h.inFlight r hr

theorem Spares.one_le (h : w.Spares) (hfailed : w.HasFailed key n) : 1 ≤ w.scheduler.config.maxTries :=
  Nat.lt_of_le_of_lt (Nat.zero_le n) (h.failures_lt hfailed)

private theorem inFlight?_of_attempt? {a : Attempt} (h : w.tick.attempt? = some a) :
    w.inFlight? = some a.refresh := by
  rw [inFlight?]
  generalize w.tick = stage at h
  cases stage with
  | resting | reading => cases h
  | posting | acknowledging => exact congrArg (·.map (·.refresh)) h

section

variable [ZoneClocks]

def trace {α : Type} (see : Session → SessionEvent → Option α) (w : Session) : List SessionEvent → List α
  | [] => []
  | e :: rest => (see w e).toList ++ trace see (w.react e) rest

theorem trace_concat {α : Type} (see : Session → SessionEvent → Option α) (w : Session)
    (events : List SessionEvent) (e : SessionEvent) :
    w.trace see (events ++ [e]) = w.trace see events ++ (see (w.after events) e).toList := by
  induction events generalizing w with
  | nil => exact List.append_nil _
  | cons first rest ih =>
    rw [List.cons_append, trace, ih, trace, List.append_assoc]
    rfl

/-- The answer of the tick that ends with an event and has held the refresh of a poll. -/
def answer? (key : PollKey) (w : Session) (e : SessionEvent) : Option TickOutcome :=
  match w.inFlight?, w.report e with
  | some r, .ended outcome => if r.key = key then some outcome else none
  | _, _ => none

/-- The call to the chat platform that an event makes for a poll. -/
def callFor? (key : PollKey) (w : Session) (e : SessionEvent) : Option Attempt :=
  (w.call? e).filter (·.refresh.key = key)

theorem answer?_eq_some {outcome : TickOutcome} : w.answer? key e = some outcome ↔
    ∃ r, w.inFlight? = some r ∧ r.key = key ∧ w.report e = .ended outcome := by
  simp only [answer?]
  split
  · next r outcome' hheld hended => simp [hheld, hended]
  · next hother =>
    simp only [reduceCtorEq, false_iff]
    rintro ⟨r, hheld, -, hended⟩
    exact hother r outcome hheld hended

theorem hasFailed_of_new (hw : w.Healthy) (hnew : ¬ w.UnderWay key) (hunder : (w.react e).UnderWay key) :
    (w.react e).HasFailed key 0 := by
  obtain ⟨hline, hheld⟩ := not_or.mp hnew
  have hnone : w.inLine? key = none := Option.not_isSome_iff_eq_none.mp hline
  have hfree : ∀ r, (w.react e).inFlight? = some r → r.key ≠ key := by
    rintro r hr rfl
    rcases inFlight?_react hw hr with hold | ⟨now, rfl, htakes⟩
    · exact hheld ⟨r, hold, rfl⟩
    · cases hnone.symm.trans (htakes.inLine hw)
  obtain ⟨r, hr⟩ := Option.isSome_iff_exists.mp
    (hunder.resolve_right fun ⟨s, hs, hkey⟩ => hfree s hs hkey)
  refine .inLine r hr ?_ hfree
  rcases (effect_react hw e).line.comes key r hnone hr with ⟨-, hattempts⟩ | ⟨s, now, hs, rfl, -⟩
  · exact hattempts
  · have hkey : (s.again _).key = key := ((hw.react e).sound.get?_eq_some.mp hr).2
    exact absurd ⟨s, hs, hkey⟩ hheld

/-- A request for a poll in line gives its refresh more time and leaves all else of it alone. -/
theorem inLine?_of_asks (hw : w.Healthy) {now : Instant} (hasks : w.Asks e now key)
    (hr : w.inLine? key = some r) : (w.react e).inLine? key =
      some { r with timeout := r.timeout.later (now.plus w.scheduler.config.updateTimeout) } := by
  obtain ⟨keys, hkey, hqueue⟩ := queue_of_asks hw hasks
  rw [inLine?, hqueue, RefreshQueue.get?_askAll _ now keys hr, if_pos hkey]

theorem failsAt?_of_retrying (hw : w.Healthy) (hended : w.report e = .ended (.retrying n)) :
    (∃ t, e.failsAt? = some t) ∧ n < w.scheduler.config.maxTries := by
  cases (ends_of_report hw hended).1 with
  | failed hheld hclock hsettles =>
    generalize (w.react e).scheduler.queue = q at hsettles
    cases hsettles with
    | retrying hleft => exact ⟨⟨_, hclock⟩, hleft⟩

theorem Spares.react (h : w.Spares) (hw : w.Healthy) (hsome : 1 ≤ w.scheduler.config.maxTries) :
    (w.react e).Spares := by
  have heffect := effect_react hw e
  refine ⟨fun key r hr => ?_, fun r hr => ?_⟩ <;> rw [heffect.config]
  · cases hold : w.inLine? key with
    | some old => exact (heffect.line.stays key old r hold hr).attempts ▸ h.inLine key old hold
    | none =>
      rcases heffect.line.comes key r hold hr with ⟨-, hattempts⟩ | ⟨s, now, -, -, hended⟩
      · rw [hattempts]
        exact hsome
      · exact (failsAt?_of_retrying hw hended).2
  · rcases inFlight?_react hw hr with hold | ⟨now, rfl, htakes⟩
    · exact h.inFlight r hold
    · exact h.inLine r.key r (htakes.inLine hw)

theorem Spares.after (h : w.Spares) (hw : w.Healthy) (hsome : 1 ≤ w.scheduler.config.maxTries) :
    (w.after events).Spares := by
  induction events generalizing w with
  | nil => exact h
  | cons e rest ih =>
    exact ih (h.react hw hsome) (hw.react e) ((effect_react hw e).config.symm ▸ hsome)

private theorem HasFailed.retries_lt (h : w.HasFailed key n) (hw : w.Healthy) (hspares : w.Spares)
    (hasks : ¬ w.Sometime (AskedInFlight key) events) (hunder : w.Throughout (UnderWay key) events) :
    n + w.retries key events < w.scheduler.config.maxTries := by
  have hlast := (hspares.after hw (hspares.one_le h)).failures_lt (h.after hw hasks hunder)
  rwa [config_after hw] at hlast

/-- When the tick is done with a refresh that is still under way, it has failed. -/
theorem HasFailed.isRetry_of_resting (h : w.HasFailed key n) (hw : w.Healthy)
    (hasks : ¬ w.AskedInFlight key e) (hunder : (w.react e).UnderWay key) (hheld : w.inFlight? = some r)
    (hkey : r.key = key) (hresting : (w.react e).tick = .resting) : w.isRetry key e = true := by
  subst hkey
  cases h with
  | inLine _ _ _ hfree => exact absurd rfl (hfree r hheld)
  | inFlight _ _ _ _ hnone =>
    have hfree : ¬ ∃ s ∈ (w.react e).inFlight?, s.key = r.key := by
      rintro ⟨s, hs, -⟩
      cases (inFlight?_of_resting hresting).symm.trans hs
    obtain ⟨r', hr'⟩ := Option.isSome_iff_exists.mp (hunder.resolve_right hfree)
    exact isRetry_iff.mpr ⟨r, _, hheld, rfl, (retrying_of_comes hw hheld hasks hnone hr').2⟩

private theorem HasFailed.answer?_eq (h : w.HasFailed key n) (hw : w.Healthy)
    (hasks : ¬ w.AskedInFlight key e) (hunder : (w.react e).UnderWay key) :
    w.answer? key e = if w.isRetry key e then some (.retrying (n + 1)) else none := by
  split
  · next hretry =>
    obtain ⟨r, m, hheld, hkey, hended⟩ := isRetry_iff.mp hretry
    refine answer?_eq_some.mpr ⟨r, hheld, hkey, ?_⟩
    rcases h.ended hw hheld hkey hended with houtcome | houtcome | houtcome
    · cases houtcome
    · cases houtcome
    · split at houtcome
      · cases houtcome
      · rw [hended, houtcome]
  · next hretry =>
    refine Option.eq_none_iff_forall_ne_some.mpr fun outcome hanswer => hretry ?_
    obtain ⟨r, hheld, hkey, hended⟩ := answer?_eq_some.mp hanswer
    exact h.isRetry_of_resting hw hasks hunder hheld hkey (ends_of_report hw hended).2

/-- As long as the refresh is under way, the answers count its failures. -/
theorem HasFailed.answers (h : w.HasFailed key n) (hw : w.Healthy)
    (hasks : ¬ w.Sometime (AskedInFlight key) events) (hunder : w.Throughout (UnderWay key) events) :
    w.trace (answer? key) events = (List.range' (n + 1) (w.retries key events)).map .retrying := by
  induction events generalizing w n with
  | nil => rfl
  | cons e rest ih =>
    obtain ⟨hfirst, hrest⟩ := not_or.mp hasks
    have hstep := h.react hw hfirst hunder.2.head
    have hanswers := ih hstep (hw.react e) hrest hunder.2
    rw [trace, retries, hanswers, h.answer?_eq hw hfirst hunder.2.head]
    cases w.isRetry key e with
    | false => rw [if_neg Bool.false_ne_true, if_neg Bool.false_ne_true, Nat.zero_add]; rfl
    | true => rw [if_pos rfl, if_pos rfl, Nat.add_comm 1, List.range'_succ]; rfl

/-- The last attempt that a refresh may have is answered with the number of all. -/
theorem HasFailed.last (h : w.HasFailed key n) (hw : w.Healthy) (hspares : w.Spares)
    {outcome : TickOutcome} (hanswer : w.answer? key e = some outcome) :
    outcome = .delivered ∨ outcome = .missing ∨
      outcome = if n + 1 = w.scheduler.config.maxTries then .exhausted w.scheduler.config.maxTries
        else .retrying (n + 1) := by
  obtain ⟨r, hheld, hkey, hended⟩ := answer?_eq_some.mp hanswer
  have hlt := hspares.failures_lt h
  rcases h.ended hw hheld hkey hended with houtcome | houtcome | houtcome
  · exact .inl houtcome
  · exact .inr (.inl houtcome)
  · refine .inr (.inr (houtcome.trans ?_))
    by_cases hlast : n + 1 = w.scheduler.config.maxTries
    · rw [if_pos hlast.ge, if_pos hlast, hlast]
    · rw [if_neg (by omega), if_neg hlast]

theorem callFor?_eq_some {a : Attempt} :
    w.callFor? key e = some a ↔ w.call? e = some a ∧ a.refresh.key = key := by
  rw [callFor?, Option.filter_eq_some_iff, decide_eq_true_iff]

theorem tick_of_call? (hw : w.Healthy) {a : Attempt} (h : w.call? e = some a) :
    w.tick = .reading a.refresh ∧ (w.react e).tick = .posting a := by
  obtain ⟨now, rfl, -, -⟩ := reads_of_call? hw h
  obtain ⟨s, stage, sweeps⟩ := w
  have hmoves := TickStage.moves hw.coherent stage (.read now)
  have hcall : (stage.move s (.read now)).1.call? = some a := h
  have hreact := react_tick s stage sweeps (.read now)
  generalize stage.move s (.read now) = o at hmoves hcall hreact
  cases hmoves with
  | calls =>
    cases hcall
    exact ⟨rfl, congrArg tick hreact⟩
  | panics | fails | ignored => cases hcall

private theorem attempt?_react (hw : w.Healthy) {a : Attempt} (h : w.tick.attempt? = some a) :
    (w.react e).tick.attempt? = some a ∨ (w.react e).tick = .resting := by
  rcases w.tick_react e with ⟨m, rfl⟩ | hsame | ⟨hresting, -⟩
  · exact TickStage.attempt?_move hw.coherent h m
  · exact .inl (hsame ▸ h)
  · exact .inr hresting

def HasCalled (key : PollKey) (w : Session) : Prop := ∃ a ∈ w.tick.attempt?, a.refresh.key = key

instance (key : PollKey) (w : Session) : Decidable (w.HasCalled key) :=
  inferInstanceAs (Decidable (∃ a ∈ w.tick.attempt?, a.refresh.key = key))

/-- Each call is made by a tick that has not called before, and has failed when the next one begins. -/
theorem HasFailed.calls_react (h : w.HasFailed key n) (hw : w.Healthy) (hasks : ¬ w.AskedInFlight key e)
    (hunder : (w.react e).UnderWay key) :
    (w.callFor? key e).toList.length + (if w.HasCalled key then 1 else 0) ≤
      (if w.isRetry key e then 1 else 0) + if (w.react e).HasCalled key then 1 else 0 := by
  cases hcall : w.callFor? key e with
  | some a =>
    obtain ⟨hcall, hkey⟩ := callFor?_eq_some.mp hcall
    obtain ⟨hreading, hposting⟩ := tick_of_call? hw hcall
    have hbefore : ¬ w.HasCalled key := by
      rintro ⟨b, hb, -⟩
      rw [hreading] at hb
      cases hb
    have hafter : (w.react e).HasCalled key := ⟨a, by rw [hposting]; rfl, hkey⟩
    rw [if_neg hbefore, if_pos hafter]
    exact Nat.le_add_left 1 _
  | none =>
    by_cases hbefore : w.HasCalled key
    · by_cases hafter : (w.react e).HasCalled key
      · rw [if_pos hbefore, if_pos hafter]
        exact Nat.le_add_left _ _
      · obtain ⟨a, ha, hkey⟩ := hbefore
        have hresting : (w.react e).tick = .resting :=
          (attempt?_react hw ha).resolve_left fun hstill => hafter ⟨a, hstill, hkey⟩
        rw [h.isRetry_of_resting hw hasks hunder (inFlight?_of_attempt? ha) hkey hresting,
          if_pos ⟨a, ha, hkey⟩, if_neg hafter]
        exact Nat.le_refl 1
    · rw [if_neg hbefore]
      exact Nat.zero_le _

private theorem HasFailed.calls (h : w.HasFailed key n) (hw : w.Healthy)
    (hasks : ¬ w.Sometime (AskedInFlight key) events) (hunder : w.Throughout (UnderWay key) events) :
    (w.trace (callFor? key) events).length + (if w.HasCalled key then 1 else 0) ≤
      w.retries key events + if (w.after events).HasCalled key then 1 else 0 := by
  induction events generalizing w n with
  | nil => exact Nat.le_refl _
  | cons e rest ih =>
    obtain ⟨hfirst, hrest⟩ := not_or.mp hasks
    have hstep := h.calls_react hw hfirst hunder.2.head
    have hcalls := ih (h.react hw hfirst hunder.2.head) (hw.react e) hrest hunder.2
    have hafter : w.after (e :: rest) = (w.react e).after rest := rfl
    rw [trace, retries, List.length_append, hafter]
    omega

private theorem HasFailed.calls_le (h : w.HasFailed key n) (hw : w.Healthy) (hspares : w.Spares)
    (hasks : ¬ w.Sometime (AskedInFlight key) events) (hunder : w.Throughout (UnderWay key) events) :
    (w.trace (callFor? key) events).length ≤ w.scheduler.config.maxTries := by
  have hcalls := h.calls hw hasks hunder
  have hlt := h.retries_lt hw hspares hasks hunder
  split at hcalls <;> split at hcalls <;> omega

theorem underWay_of_callFor? (hw : w.Healthy) {a : Attempt} (h : w.callFor? key e = some a) :
    ¬ w.AskedInFlight key e ∧ (w.react e).UnderWay key := by
  obtain ⟨hcall, hkey⟩ := callFor?_eq_some.mp h
  obtain ⟨now, rfl, -, -⟩ := reads_of_call? hw hcall
  refine ⟨?_, .inr ⟨a.refresh, ?_, hkey⟩⟩
  · rintro ⟨-, -, ⟨⟩⟩
  · rw [inFlight?, (tick_of_call? hw hcall).2]
    rfl

/-- As long as the refresh does not fail, it waits for the same instant each time that it is in line. -/
theorem Waits.after_pause {t : Instant} (h : w.Waits key n t) (hw : w.Healthy)
    (hasks : ¬ w.Sometime (AskedInFlight key) events) (hunder : w.Throughout (UnderWay key) events)
    (hnone : w.retries key events = 0) (hline : (w.after events).inLine? key = some r) :
    (w.after events).Waits key n t := by
  induction events using List.reverseRecOn generalizing r with
  | nil => exact h
  | append_singleton events e ih =>
    rw [sometime_append, not_or] at hasks
    rw [retries_append, Nat.add_eq_zero_iff] at hnone
    obtain ⟨hbefore, hmoves⟩ := throughout_concat.mp hunder
    have hmid := hw.after events
    rw [after_concat] at hline ⊢
    cases hold : (w.after events).inLine? key with
    | some old => exact (ih hasks.1 hbefore hnone.1 hold).react hmid (hline ▸ rfl)
    | none =>
      -- The tick holds it, and it comes back only when it has failed.
      obtain ⟨s, hs, rfl⟩ := hbefore.last.resolve_left (by rw [hold]; exact Bool.false_ne_true)
      have hended := (retrying_of_comes hmid hs (fun hasked => hasks.2 (.inl hasked)) hold hline).2
      have hretry := isRetry_iff.mpr ⟨s, _, hs, rfl, hended⟩
      have hone := hnone.2
      rw [retries, hretry] at hone
      cases hone

theorem HasFailed.waits_of_isRetry (h : w.HasFailed key n) (hw : w.Healthy) (hretry : w.isRetry key e = true)
    {t : Instant} (hclock : e.failsAt? = some t) :
    (w.react e).Waits key (n + 1) (t.plus w.scheduler.config.retryPause) := by
  obtain ⟨r, m, hheld, rfl, hended⟩ := isRetry_iff.mp hretry
  obtain ⟨rfl, -, hfree, -⟩ := waits_of_retrying hw hheld hended hclock
  cases h with
  | inLine _ _ _ hother => exact absurd rfl (hother r hheld)
  | inFlight s hs _ hattempts hnone =>
    obtain rfl := Option.some.inj (hheld.symm.trans hs)
    exact hattempts ▸ hfree hnone

/-- How the refresh of a poll is under way no more. -/
inductive Leaves (w : Session) (key : PollKey) : SessionEvent → Prop where
  | answered {e : SessionEvent} {outcome : TickOutcome} (hanswer : w.answer? key e = some outcome)
      (hdone : outcome = .delivered ∨ outcome = .missing ∨
        outcome = .exhausted w.scheduler.config.maxTries) : w.Leaves key e
  | expired (now : Instant) {r : Refresh} (hline : w.inLine? key = some r) (hlate : r.timeout < now) :
      w.Leaves key (.tick (.begin now))
  | drained (aborts : Bool) : w.Leaves key (.shutdown aborts)
  | panicked {e : SessionEvent} {r : Refresh} (hheld : w.inFlight? = some r) (hkey : r.key = key)
      (hpanicked : w.report e = .panicked) : w.Leaves key e
  | replaced : w.Leaves key .restart

/-- How a tick lets go of the refresh that it holds. -/
theorem lets_go (hw : w.Healthy) (hheld : w.inFlight? = some r) (hfree : (w.react e).inFlight? ≠ some r) :
    (∃ outcome, w.report e = .ended outcome) ∨ w.report e = .panicked ∨
      (∃ aborts, e = .shutdown aborts) ∨ e = .restart := by
  rcases w.tick_react e with ⟨m, rfl⟩ | hsame | ⟨-, hends⟩
  · obtain ⟨s, stage, sweeps⟩ := w
    have hmoves := TickStage.moves hw.coherent stage m
    have hreact := react_tick s stage sweeps m
    have hreport : report ⟨s, stage, sweeps⟩ (.tick m) = (stage.move s m).1 := rfl
    rw [hreport]
    rw [inFlight?, hreact] at hfree
    generalize stage.move s m = o at hmoves hfree
    cases hmoves with
    | idle | takes => cases hheld
    | calls | delivers | ignored => exact absurd hheld hfree
    | panics => exact .inr (.inl rfl)
    | fails | acknowledges => exact .inl ⟨_, rfl⟩
  · rw [inFlight?, hsame] at hfree
    exact absurd hheld hfree
  · exact .inr (.inr hends)

/-- A tick that is done with a refresh for good has delivered its text, found nothing to refresh, or given
it up. -/
theorem HasFailed.done (h : w.HasFailed key n) (hw : w.Healthy) (hspares : w.Spares)
    {outcome : TickOutcome} (hanswer : w.answer? key e = some outcome)
    (hgone : ¬ (w.react e).UnderWay key) : outcome = .delivered ∨ outcome = .missing ∨
      outcome = .exhausted w.scheduler.config.maxTries := by
  rcases h.last hw hspares hanswer with hdone | hdone | hdone
  · exact .inl hdone
  · exact .inr (.inl hdone)
  · split at hdone
    · exact .inr (.inr hdone)
    · -- A refresh that is tried again is in line.
      subst hdone
      obtain ⟨r, hheld, hkey, hended⟩ := answer?_eq_some.mp hanswer
      obtain ⟨⟨t, hclock⟩, -⟩ := failsAt?_of_retrying hw hended
      have hretry := isRetry_iff.mpr ⟨r, _, hheld, hkey, hended⟩
      obtain ⟨s, hs, -⟩ := h.waits_of_isRetry hw hretry hclock
      exact absurd (.inl (Option.isSome_iff_exists.mpr ⟨s, hs⟩)) hgone

private theorem HasFailed.leaves (h : w.HasFailed key n) (hw : w.Healthy) (hspares : w.Spares)
    (hgone : ¬ (w.react e).UnderWay key) : w.Leaves key e := by
  cases h with
  | inLine r hr hattempts hfree =>
    have hnone := Option.not_isSome_iff_eq_none.mp fun hline => hgone (.inl hline)
    cases (effect_react hw e).line.leaves key r hr hnone with
    | begun now hresting hnext =>
      have hkey : r.key = key := (hw.sound.get?_eq_some.mp hr).2
      exact absurd (.inr ⟨r, (inFlight?_begin hresting now).trans hnext, hkey⟩) hgone
    | expired now hlate => exact .expired now hr hlate
    | drained aborts => exact .drained aborts
    | replaced => exact .replaced
  | inFlight r hr hkey hattempts hnone =>
    have hfree : (w.react e).inFlight? ≠ some r := fun hstill => hgone (.inr ⟨r, hstill, hkey⟩)
    rcases lets_go hw hr hfree with ⟨outcome, hended⟩ | hpanicked | ⟨aborts, rfl⟩ | rfl
    · have hanswer := answer?_eq_some.mpr ⟨r, hr, hkey, hended⟩
      have hfailed : w.HasFailed key n := .inFlight r hr hkey hattempts hnone
      exact .answered hanswer (hfailed.done hw hspares hanswer hgone)
    · exact .panicked hr hkey hpanicked
    · exact .drained aborts
    · exact .replaced

/-- What a refresh may use up that is under way since an event has brought its poll into line. -/
structure WithinBudget (config : SchedulerConfig) (v : Session) (key : PollKey)
    (since : List SessionEvent) : Prop where
  spares : v.retries key since < config.maxTries
  /-- Each failure is answered with its number. -/
  answers : v.trace (answer? key) since = (List.range' 1 (v.retries key since)).map .retrying
  /-- So is the next one, unless it is the last one. -/
  last : ∀ e outcome, (v.after since).answer? key e = some outcome →
    outcome = .delivered ∨ outcome = .missing ∨
      outcome = if v.retries key since + 1 = config.maxTries then .exhausted config.maxTries
        else .retrying (v.retries key since + 1)
  calls : ∀ e, (v.trace (callFor? key) (since ++ [e])).length ≤ config.maxTries
  starts : ∀ start r, (v.after since).Takes start r → r.key = key →
    r.attempts = v.retries key since ∧ ¬ r.timeout < start
  /-- An attempt starts when the pause after the failure before it is over. -/
  pauses : ∀ start r first failure pause t, (v.after since).Takes start r → r.key = key →
    since = first ++ failure :: pause → (v.after first).isRetry key failure = true →
    ((v.after first).react failure).retries key pause = 0 → failure.failsAt? = some t →
    t.plus config.retryPause ≤ start
  leaves : ∀ e, ¬ ((v.after since).react e).UnderWay key → (v.after since).Leaves key e

private theorem withinBudget_of_new {config : SchedulerConfig} {since : List SessionEvent} (hw : w.Healthy)
    (hspares : w.Spares) (hconfig : w.scheduler.config = config) (hfailed : w.HasFailed key 0)
    (hasks : ¬ w.Sometime (AskedInFlight key) since) (hunder : w.Throughout (UnderWay key) since) :
    w.WithinBudget config key since := by
  have hend : (w.after since).HasFailed key (w.retries key since) :=
    Nat.zero_add (w.retries key since) ▸ hfailed.after hw hasks hunder
  have hlast : (w.after since).Spares := hspares.after hw (hspares.one_le hfailed)
  have hmax : (w.after since).scheduler.config = config := (config_after hw since).trans hconfig
  refine ⟨hmax ▸ hlast.failures_lt hend, hfailed.answers hw hasks hunder, fun e outcome hanswer => ?_,
    fun e => ?_, fun start r htakes hkey => ⟨?_, htakes.inTime⟩, ?_, fun e => hend.leaves (hw.after since) hlast⟩
  · rw [← hmax]
    exact hend.last (hw.after since) hlast hanswer
  · rw [← hconfig]
    cases hcall : (w.after since).callFor? key e with
    | none =>
      rw [trace_concat, hcall, Option.toList_none, List.append_nil]
      exact hfailed.calls_le hw hspares hasks hunder
    | some a =>
      obtain ⟨hunasked, hstill⟩ := underWay_of_callFor? (hw.after since) hcall
      refine hfailed.calls_le hw hspares ?_ (throughout_concat.mpr ⟨hunder, hstill⟩)
      rw [sometime_append, not_or]
      exact ⟨hasks, not_or.mpr ⟨hunasked, id⟩⟩
  · subst hkey
    cases hend with
    | inLine s hs hattempts =>
      obtain rfl := Option.some.inj (hs.symm.trans (htakes.inLine (hw.after since)))
      exact hattempts
    | inFlight s hs => cases (inFlight?_of_resting htakes.resting).symm.trans hs
  · rintro start r first failure pause t htakes rfl rfl hretry hnone hclock
    rw [sometime_append, not_or, Sometime, not_or] at hasks
    obtain ⟨hunderFirst, hunderRest⟩ := throughout_append.mp hunder
    have hmid := hw.after first
    have hwaits := (hfailed.after hw hasks.1 hunderFirst).waits_of_isRetry hmid hretry hclock
    rw [(config_after hw first).trans hconfig] at hwaits
    rw [after_append] at htakes
    have hline := htakes.inLine ((hmid.react failure).after pause)
    have hpaused := hwaits.after_pause (hmid.react failure) hasks.2.2 hunderRest.2 hnone hline
    exact (hpaused.takes ((hmid.react failure).after pause) htakes rfl).2

/-- No refresh in line has used up its attempts. A request for a poll in line puts off the timeout of its
refresh and changes nothing else of it. And from the event that brings a poll into line to the one with
which its refresh is under way no more, that keeps within its budget, provided that nobody asks for it while
a tick holds it. -/
theorem attempts_within_budget (config : SchedulerConfig) (hsome : 1 ≤ config.maxTries)
    (events : List SessionEvent) :
    let w := (fresh config).after events
    (∀ r ∈ w.scheduler.queue.toList, r.attempts < config.maxTries) ∧
      (∀ e now key r, w.Asks e now key → w.inLine? key = some r → (w.react e).inLine? key =
        some { r with timeout := r.timeout.later (now.plus config.updateTimeout) }) ∧
      ∀ key added since, ¬ w.UnderWay key → (w.react added).Throughout (UnderWay key) since →
        ¬ (w.react added).Sometime (AskedInFlight key) since →
        (w.react added).WithinBudget config key since := by
  intro w
  have hstart : (fresh config).Healthy := healthy_fresh config
  have hw : w.Healthy := hstart.after events
  have hconfig : w.scheduler.config = config := config_after hstart events
  have hspares : w.Spares := (spares_fresh config).after hstart hsome
  refine ⟨fun r hr => ?_, fun e now key r hasks hr => ?_, fun key added since hnew hunder hasks => ?_⟩
  · rw [← hconfig]
    exact hspares.inLine r.key r (hw.sound.get?_eq_some.mpr ⟨hr, rfl⟩)
  · rw [← hconfig]
    exact inLine?_of_asks hw hasks hr
  · exact withinBudget_of_new (hw.react added) (hspares.react hw (hconfig.symm ▸ hsome))
      ((effect_react hw added).config.trans hconfig) (hasFailed_of_new hw hnew hunder.head) hasks hunder

end

open ZoneHistories

/-- The poll is asked for during the first pause, which puts off the timeout of its refresh. The attempts are
still numbered one after the other, and after the third call the refresh is given up. -/
theorem attempts_within_budget_of_refused :
    let second := Instant.plus .earliest (.ofSeconds 1)
    let third := second.plus (.ofSeconds 1)
    let before : List SessionEvent :=
      insertLunch ++ [.client (.release ⟨1, 0⟩) rfl, .reachable .earliest 1]
    let first : List SessionEvent := callLunch .earliest ++ [refuseLunch .earliest]
    let since := first ++ .request second ⟨1, 7⟩ :: callLunch second ++ refuseLunch second :: callLunch third
    let w := (fresh .everySecond).after before
    let v := w.react (.request .earliest ⟨1, 7⟩)
    1 ≤ SchedulerConfig.everySecond.maxTries ∧ v.WithinBudget .everySecond ⟨1, 7⟩ since ∧
      ((v.after first).react (.request second ⟨1, 7⟩)).inLine? ⟨1, 7⟩ =
        some ⟨⟨1, 7⟩, third, second, 1⟩ ∧
      v.trace (answer? ⟨1, 7⟩) since = [.retrying 1, .retrying 2] ∧
      (v.after since).answer? ⟨1, 7⟩ (refuseLunch third) = some (.exhausted 3) ∧
      (v.trace (callFor? ⟨1, 7⟩) (since ++ [refuseLunch third])).length = 3 := by
  intro second third before first since w v
  have hsome : 1 ≤ SchedulerConfig.everySecond.maxTries := by decide
  obtain ⟨hnew, hunder, hresting, hline, hretries, hlast, hcalls⟩ :
      ¬ w.UnderWay ⟨1, 7⟩ ∧ v.Throughout (UnderWay ⟨1, 7⟩) since ∧
        (v.after first).inFlight? = none ∧
        (v.after first).inLine? ⟨1, 7⟩ = some ⟨⟨1, 7⟩, second, second, 1⟩ ∧
        v.retries ⟨1, 7⟩ since = 2 ∧
        (v.after since).answer? ⟨1, 7⟩ (refuseLunch third) = some (.exhausted 3) ∧
        (v.trace (callFor? ⟨1, 7⟩) (since ++ [refuseLunch third])).length = 3 := by decide +kernel
  have hunasked : ¬ v.Sometime (AskedInFlight ⟨1, 7⟩) since := by
    rintro (⟨-, _, ⟨⟩⟩ | ⟨-, _, ⟨⟩⟩ | ⟨-, _, ⟨⟩⟩ | ⟨⟨r, hr, -⟩, -⟩ | ⟨-, _, ⟨⟩⟩ | ⟨-, _, ⟨⟩⟩ | ⟨-, _, ⟨⟩⟩ |
      ⟨-, _, ⟨⟩⟩ | ⟨-, _, ⟨⟩⟩ | hnone)
    · cases hresting.symm.trans hr
    · exact hnone
  have hbudget : v.WithinBudget .everySecond ⟨1, 7⟩ since :=
    (attempts_within_budget .everySecond hsome before).2.2 _ _ _ hnew hunder hunasked
  have hsplit : (fresh .everySecond).after (before ++ [.request .earliest ⟨1, 7⟩] ++ first) =
      v.after first := by rw [after_append, after_concat _ before]
  have hasks := (attempts_within_budget .everySecond hsome
    (before ++ [.request .earliest ⟨1, 7⟩] ++ first)).2.1
  rw [hsplit] at hasks
  have hlater : second.later (second.plus SchedulerConfig.everySecond.updateTimeout) = third := by
    decide +kernel
  refine ⟨hsome, hbudget, ?_, ?_, hlast, hcalls⟩
  · rw [hasks _ second ⟨1, 7⟩ _ (.request second ⟨1, 7⟩) hline, hlater]
  · rw [hbudget.answers, hretries]
    rfl

end Session
end PollKeeper
