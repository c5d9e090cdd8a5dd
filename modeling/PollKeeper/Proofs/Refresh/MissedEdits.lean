import PollKeeper.Proofs.Refresh.EditCursor
import PollKeeper.Proofs.Refresh.FinalRefresh
import PollKeeper.Proofs.Time.Sums

/-!
# No edit is missed

A sweep looks at the edits from shortly before the start of the last sweep that has succeeded. That is
enough as long as no clock reading of a change lags further behind: then an unseen edit that the last sweep
has not found was made after it had looked, and bears a stamp within the slack (`Session.Covered`).
-/

namespace PollKeeper

open Time Service

/-- The clock reading lies further back than a sweep that starts at `start` lets the next one look. -/
def Time.Instant.LagsBehind (now start : Instant) : Prop := now.total + sweepSlack.nanos < start.total

instance (now start : Instant) : Decidable (now.LagsBehind start) :=
  inferInstanceAs (Decidable (_ < _))

theorem Time.Instant.millis_minus_le {start now : Instant} (h : ¬ now.LagsBehind start) :
    (start.minus sweepSlack).millis ≤ now.millis := by
  have htotal := start.total_minus sweepSlack
  have hfirst := now.earliest_total_le
  simp only [LagsBehind, Int.not_lt] at h
  simp only [millis]
  omega

namespace Session

section

variable [ZoneClocks] {w : Session} {e : OpenEvent} {i : Nat} {start now : Instant} {found : List EditStamp}
  {rest : List OpenEvent} {edit : EditStamp}

def hasAcknowledged (w : Session) (i : Nat) : Bool :=
  match w.sweeps i with
  | some (.acknowledged _) => true
  | _ => false

/-- The sweep in a slot acknowledges what it has found before another one takes its slot. -/
def acknowledges (i : Nat) (w : Session) : List OpenEvent → Bool
  | [] => false
  | e :: rest =>
    !e.begins i && ((w.reactOpen e).hasAcknowledged i || (w.reactOpen e).acknowledges i rest)

/-- The start of the sweep that an event begins, if the sweep succeeds in the rest of the run. From its
acknowledgements on the next sweep relies on it. -/
def succeeds? (w : Session) (rest : List OpenEvent) : OpenEvent → Option Instant
  | .session (.sweepEdits now) =>
    if (outcome (Service.sweepEdits now) w.service).1.isOk then some now else none
  | .session (.beginSweep i now) =>
    if (w.react (.beginSweep i now)).acknowledges i rest then some now else none
  | _ => none

/-- No change of a poll lags behind the start of a sweep that began before it and succeeds. -/
def Punctual (w : Session) : List OpenEvent → Prop
  | [] => True
  | e :: rest =>
    (∀ start ∈ w.succeeds? rest e, ∀ now ∈ (w.reactOpen e).mutations rest, ¬ now.LagsBehind start) ∧
      (w.reactOpen e).Punctual rest

instance decidablePunctual : ∀ (w : Session) (events : List OpenEvent), Decidable (w.Punctual events)
  | _, [] => inferInstanceAs (Decidable True)
  | w, e :: rest =>
    have := decidablePunctual (w.reactOpen e) rest
    inferInstanceAs (Decidable (_ ∧ _))

/-- Every unseen edit was found, or is not older than the slack before `start`, and no later change lags
behind that. -/
structure Covered (w : Session) (start : Instant) (found : List EditStamp) (rest : List OpenEvent) :
    Prop where
  punctual : ∀ now ∈ w.mutations rest, ¬ now.LagsBehind start
  unseen : ∀ edit, w.tables.IsUnseen edit →
    edit ∈ found ∨ (start.minus sweepSlack).millis ≤ edit.editedAt

theorem Covered.react (hw : w.Healthy) (h : w.Covered start found (e :: rest)) :
    (w.reactOpen e).Covered start found rest := by
  refine ⟨fun now hnow => h.punctual now (List.mem_append_right _ hnow), fun edit hedit => ?_⟩
  rcases isUnseen_reactOpen hw hedit with hold | ⟨now, hnow, hstamp⟩
  · exact h.unseen edit hold
  · have hmutation : now ∈ w.mutations (e :: rest) :=
      List.mem_append_left _ (Option.mem_toList.mpr hnow)
    exact .inr (hstamp ▸ Instant.millis_minus_le (h.punctual now hmutation))

/-- What holds at every moment of a run, in view of the rest of it. -/
structure CatchesUp (w : Session) (rest : List OpenEvent) : Prop where
  healthy : w.Healthy
  stamps : ∀ edit, w.tables.IsUnseen edit → Instant.earliest.millis ≤ edit.editedAt
  cursor : ∀ start, w.scheduler.editCursor = some start → w.Covered start [] rest
  sweeps : ∀ i start found, w.HasFound i start found → w.acknowledges i rest = true →
    w.Covered start (found.map (·.toStamp)) rest
  punctual : w.Punctual rest

namespace CatchesUp

theorem cutoff (h : w.CatchesUp rest) (hedit : w.tables.IsUnseen edit) :
    w.scheduler.editCutoff.millis ≤ edit.editedAt := by
  simp only [Scheduler.editCutoff]
  split
  · next start hstart => exact ((h.cursor start hstart).unseen edit hedit).resolve_left List.not_mem_nil
  · exact h.stamps edit hedit

theorem mem_unseenSince (h : w.CatchesUp rest) (hedit : w.tables.IsUnseen edit) :
    edit ∈ w.tables.unseenSince w.scheduler.editCutoff.millis :=
  (Tables.mem_unseenSince_iff_isUnseen h.healthy.distinct).mpr ⟨hedit, h.cutoff hedit⟩

theorem sweepEdits (h : w.CatchesUp rest) {n : Nat}
    (hok : (outcome (Service.sweepEdits now) w.service).1 = .ok n) :
    let unseen := w.tables.unseenSince w.scheduler.editCutoff.millis
    let ended := w.tables.awaitingFinal now.ceilSeconds
    let s := (outcome (Service.sweepEdits now) w.service).2
    n = unseen.length + ended.length ∧
      w.service.Sweeps now unseen ended (unseen.map (·.key) ++ ended) s ∧
      s.scheduler.editCursor = some now ∧ ∀ edit, ¬ s.tables.IsUnseen edit := by
  intro unseen ended s
  obtain ⟨hcount, hsweeps, hcursor⟩ := sweepEdits_of_ok h.healthy.coherent hok
  refine ⟨hcount, hsweeps, hcursor, fun edit hedit => ?_⟩
  have htables : s.tables = _ := hsweeps.holds.tables
  rw [htables] at hedit
  exact Tables.not_isUnseen_of_notes (fun edit hold => h.mem_unseenSince hold) hedit

theorem mem_keys_unseenSince (h : w.CatchesUp rest) {r : PollRow} (hr : r ∈ w.tables.polls) :
    r.key ∈ (w.tables.unseenSince w.scheduler.editCutoff.millis).map (·.key) ↔
      r.hasUnseenEdit = true := by
  have hrow := Tables.row?_of_mem h.healthy.distinct hr
  rw [List.mem_map]
  constructor
  · rintro ⟨edit, hedit, hkey⟩
    obtain ⟨⟨r', hr', hunseen, -⟩, -⟩ :=
      (Tables.mem_unseenSince_iff_isUnseen h.healthy.distinct).mp hedit
    rw [hkey] at hr'
    cases hrow.symm.trans hr'
    exact hunseen
  · exact fun hunseen => ⟨⟨r.key, r.editedAt⟩, h.mem_unseenSince ⟨r, hrow, hunseen, rfl⟩, rfl⟩

/-- A sweep that succeeds leaves no ended poll that awaits its final refresh. -/
theorem awaitingFinal_sweepEdits (h : w.CatchesUp rest) {n : Nat}
    (hok : (outcome (Service.sweepEdits now) w.service).1 = .ok n) :
    (outcome (Service.sweepEdits now) w.service).2.tables.awaitingFinal now.ceilSeconds = [] := by
  have hsweeps := (h.sweepEdits hok).2.1
  have hseen := w.tables.awaitingFinal_markSeen
    (w.tables.unseenSince w.scheduler.editCutoff.millis) now.ceilSeconds
  have hdistinct := h.healthy.distinct
  rw [← (Tables.sameContent_markSeen w.tables
    (w.tables.unseenSince w.scheduler.editCutoff.millis)).keys] at hdistinct
  rw [hsweeps.holds.tables, ← hseen]
  exact Tables.awaitingFinal_markFinal hdistinct now

private theorem covered_of_movesCursor (h : w.CatchesUp (e :: rest)) (hmoves : w.MovesCursor start e) :
    (w.reactOpen e).Covered start [] rest := by
  cases hmoves with
  | whole hok =>
    obtain ⟨n, hn⟩ : ∃ n, (outcome (Service.sweepEdits start) w.service).1 = .ok n := by
      cases hresult : (outcome (Service.sweepEdits start) w.service).1 with
      | error e =>
        rw [hresult] at hok
        cases hok
      | ok n => exact ⟨n, rfl⟩
    have hnone := (h.sweepEdits hn).2.2.2
    refine ⟨fun now hnow => h.punctual.1 start ?_ now hnow, fun edit hedit => absurd hedit (hnone edit)⟩
    simp only [succeeds?, hok, if_true, Option.mem_some]
  | phase i now hphase =>
    next found =>
    have hreact := react_advanceSweep hphase now
    obtain ⟨hresult, hholds, -⟩ := finishUnseen_eq h.healthy.coherent start found
    have hadvance : (SweepPhase.askedEdited start found).advance w.service now =
        (some (.acknowledged start), (outcome (finishUnseen start found) w.service).2) := by
      simp only [SweepPhase.advance]
      generalize outcome (finishUnseen start found) w.service = o at hresult
      obtain ⟨_, s⟩ := o
      cases hresult
      rfl
    have hacknowledges : w.acknowledges i (.session (.advanceSweep i now) :: rest) = true := by
      simp [acknowledges, OpenEvent.begins, hasAcknowledged, reactOpen, hreact, hadvance, withSweep]
    have hcovered := (h.sweeps i start found (.inr hphase) hacknowledges).react h.healthy
    refine ⟨hcovered.punctual, fun edit hedit => .inr ?_⟩
    refine (hcovered.unseen edit hedit).resolve_left fun hmem => ?_
    have htables : (w.reactOpen (.session (.advanceSweep i now))).tables =
        (w.tables.markSeen (found.map (·.toStamp))).2 := by
      rw [reactOpen, hreact, hadvance]
      exact hholds.tables
    rw [htables, Tables.isUnseen_markSeen] at hedit
    exact Int.lt_irrefl _ (hedit.2 edit hmem rfl)

theorem react (h : w.CatchesUp (e :: rest)) : (w.reactOpen e).CatchesUp rest where
  healthy := h.healthy.reactOpen e
  stamps edit hedit := by
    rcases isUnseen_reactOpen h.healthy hedit with hold | ⟨now, -, hstamp⟩
    · exact h.stamps edit hold
    · exact hstamp ▸ now.earliest_millis_le
  cursor start hstart := by
    rcases editCursor_reactOpen h.healthy hstart with hold | hmoves
    · exact (h.cursor start hold).react h.healthy
    · exact h.covered_of_movesCursor hmoves
  sweeps i start found hfound hacknowledges := by
    rcases hasFound_reactOpen h.healthy hfound with ⟨hbegins, hold⟩ | ⟨rfl, hstamps⟩
    · have hearlier : w.acknowledges i (e :: rest) = true := by simp [acknowledges, hbegins, hacknowledges]
      exact (h.sweeps i start found hold hearlier).react h.healthy
    · refine ⟨fun now hnow => h.punctual.1 start ?_ now hnow, fun edit hedit => .inl ?_⟩
      · have hsucceeds : (w.react (.beginSweep i start)).acknowledges i rest = true := hacknowledges
        simp only [succeeds?, hsucceeds, if_true, Option.mem_some]
      · rcases isUnseen_reactOpen h.healthy hedit with hold | ⟨now, hnow, -⟩
        · exact hstamps ▸ h.mem_unseenSince hold
        · cases hnow
  punctual := h.punctual.2

private theorem after (h : w.CatchesUp rest) : (w.afterOpen rest).CatchesUp [] := by
  induction rest generalizing w with
  | nil => exact h
  | cons e rest ih => exact ih h.react

end CatchesUp

private theorem catchesUp_fresh (config : SchedulerConfig) (h : (fresh config).Punctual rest) :
    (fresh config).CatchesUp rest := by
  refine ⟨healthy_fresh config, fun edit hedit => ?_, fun start hstart => ?_, fun i start found hfound => ?_, h⟩
  · obtain ⟨r, hr, -⟩ := hedit
    cases hr
  · cases hstart
  · rcases hfound with hfound | hfound <;> cases hfound

/-- Let no change be stamped by a clock that lags by more than the slack behind the start of a sweep that
began before it and succeeds. Then a sweep that nothing interrupts and that succeeds leaves no edit unseen
and no ended poll without its final refresh; it asks for the refreshes of the polls that had one or the
other, and counts them. A second one at the same clock reading finds nothing and changes nothing. -/
theorem sweep_misses_no_edit (config : SchedulerConfig) {events : List OpenEvent} {n : Nat}
    (hpunctual : (fresh config).Punctual events)
    (hok : (outcome (Service.sweepEdits now) ((fresh config).afterOpen events).service).1 = .ok n) :
    let w := (fresh config).afterOpen events
    let s := (outcome (Service.sweepEdits now) w.service).2
    let again := outcome (Service.sweepEdits now) s
    ((∀ r ∈ s.tables.polls, r.hasUnseenEdit = false) ∧
        (outcome (onStore (Store.endedUnrefreshed now)) s).1 = .ok []) ∧
      (∃ asks, s.scheduler.queue =
          w.scheduler.queue.askAll (now.plus w.scheduler.config.updateTimeout) now asks ∧
        ∀ r ∈ w.tables.polls,
          (r.key ∈ asks ↔ r.hasUnseenEdit = true ∨ r.finalRefreshed = 0 ∧ now.IsPast r.endAt) ∧
          (r.key ∈ asks → r.key ∈ s.scheduler.queue.keys)) ∧
      n = w.tables.polls.countP (·.hasUnseenEdit) +
        w.tables.polls.countP (fun r => r.finalRefreshed = 0 ∧ now.IsPast r.endAt) ∧
      again.1 = .ok 0 ∧ again.2.scheduler.queue = s.scheduler.queue ∧ again.2.tables = s.tables := by
  intro w s again
  have hw : w.CatchesUp [] := (catchesUp_fresh config hpunctual).after
  obtain ⟨hcount, hsweeps, -, hnone⟩ := hw.sweepEdits hok
  have hdistinct := hw.healthy.distinct
  have hkeys : (s.tables.polls.map (·.key)).Nodup := (hw.healthy.react (.sweepEdits now)).distinct
  have hended : s.tables.awaitingFinal now.ceilSeconds = [] := hw.awaitingFinal_sweepEdits hok
  have hunseen : ∀ cutoff, s.tables.unseenSince cutoff = [] := fun cutoff =>
    List.eq_nil_iff_forall_not_mem.mpr fun edit hedit =>
      hnone edit ((Tables.mem_unseenSince_iff_isUnseen hkeys).mp hedit).1
  refine ⟨⟨fun r hr => Tables.hasUnseenEdit_eq_false_of hnone hkeys hr, ?_⟩,
    ⟨_, hsweeps.queue, fun r hr => ⟨?_, fun hask => ?_⟩⟩, ?_,
    sweepEdits_of_nothing hsweeps.holds.coherent (hunseen _) hended⟩
  · rw [(sweeps_endedUnrefreshed hsweeps.holds.coherent now now).1, hended]
  · rw [List.mem_append, hw.mem_keys_unseenSince hr, Tables.mem_awaitingFinal hdistinct,
      Tables.row?_of_mem hdistinct hr]
    simp
  · have hline : s.scheduler.queue = _ := hsweeps.queue
    rw [hline]
    exact (RefreshQueue.mem_keys_askAll hw.healthy.sound).mpr (.inr hask)
  · rw [hcount, Tables.length_unseenSince hdistinct fun edit hedit => hw.cutoff hedit,
      Tables.length_awaitingFinal]

end

open ZoneHistories

/-- The poll is changed while a sweep is under way that has looked already, by a clock that lags behind the
start of the sweep, and the next sweep starts at a still earlier clock reading. It asks for the refresh. -/
theorem sweep_misses_no_edit_of_lunch :
    let changed : OpenEvent :=
      .store (.request (afterSeconds 60) (.ofGuild ⟨1, 0⟩ (.update 7 .lunch)))
    let phase : OpenEvent := .session (.advanceSweep 0 (afterSeconds 100))
    let events := insertLunch.map OpenEvent.session ++
      [.session (.beginSweep 0 (afterSeconds 100)), changed, phase, phase, phase]
    let w := (fresh .everySecond).afterOpen events
    let s := (outcome (Service.sweepEdits (afterSeconds 50)) w.service).2
    (fresh .everySecond).Punctual events ∧
      w.scheduler.editCursor = some (afterSeconds 100) ∧
      (outcome (Service.sweepEdits (afterSeconds 50)) w.service).1 = .ok 1 ∧
      ⟨1, 7⟩ ∈ s.scheduler.queue.keys ∧ (∀ r ∈ s.tables.polls, r.hasUnseenEdit = false) ∧
      (outcome (Service.sweepEdits (afterSeconds 50)) s).1 = .ok 0 := by
  intro changed phase events w s
  have hpunctual : (fresh .everySecond).Punctual events := by decide +kernel
  have hcursor : w.scheduler.editCursor = some (afterSeconds 100) := by decide +kernel
  have hok : (outcome (Service.sweepEdits (afterSeconds 50)) w.service).1 = .ok 1 := by
    decide +kernel
  obtain ⟨⟨hunseen, -⟩, -, -, hagain, -⟩ := sweep_misses_no_edit .everySecond hpunctual hok
  exact ⟨hpunctual, hcursor, hok, by decide +kernel, hunseen, hagain⟩

end Session
end PollKeeper
