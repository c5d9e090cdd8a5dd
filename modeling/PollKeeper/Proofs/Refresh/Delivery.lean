import PollKeeper.Proofs.Refresh.Ticks
import PollKeeper.Time.ZoneHistories

/-!
# Deliveries

A call to the chat platform is made by a tick that has taken a refresh off the line at a time when it might
be tried, and it carries the text of the poll as it is stored at the moment of the call. A tick that nothing
interrupts and that delivers a text leaves no unseen edit of its poll. A tick that finds nothing to do
calls nobody.
-/

namespace PollKeeper

open Time Service

def TickReport.call? : TickReport → Option Attempt
  | called a => some a
  | _ => none

namespace Service

variable {s s' : Service} {r : Refresh} {a : Attempt} {p : Poll}

/-- As long as the poll stays as it was read, the acknowledgement leaves no unseen edit. -/
theorem ReadsNow.seen [ZoneClocks] (h : s.ReadsNow r a p) (hs' : Holds s' s.tables) (now : Instant) :
    ∃ row ∈ (s'.finishTick now a (.ok ())).2.tables.row? r.key, row.hasUnseenEdit = false := by
  obtain ⟨-, -, hedit⟩ := Store.refreshed_eq_ok_iff.mp h.read
  obtain ⟨row, hrow, hstamp⟩ := latestEdit_eq_ok hedit
  obtain ⟨⟨-, htables⟩, -, -⟩ := finishTick_ok hs'.coherent now a
  have hs'tables : s'.tables = s.tables := hs'.tables
  have hafter : (s'.finishTick now a (.ok ())).2.tables = (s.tables.markSeen [a.edit.toStamp]).2 :=
    hs'tables ▸ htables
  refine ⟨row.afterSeen [a.edit.toStamp], ?_, ?_⟩
  · rw [hafter, Tables.row?_markSeen]
    exact Option.mem_map_of_mem _ hrow
  · obtain ⟨seen, hnote, -⟩ := row.afterSeen_eq [a.edit.toStamp]
    have hedited : (row.afterSeen [a.edit.toStamp]).editedAt = row.editedAt := by rw [hnote]
    have hkey : row.key = r.key := Tables.key_of_row? hrow
    rw [Bool.eq_false_iff, Ne, PollRow.hasUnseenEdit_iff, hedited, PollRow.seenBelow_afterSeen]
    rintro ⟨hbelow, -⟩
    have hlt := hbelow a.edit.toStamp (List.mem_singleton_self _) (by rw [hstamp, hkey])
    rw [hstamp] at hlt
    exact absurd hlt (Int.lt_irrefl _)

end Service

namespace Session

section

variable [ZoneClocks] {w : Session} {e : SessionEvent} {a : Attempt}

/-- The call to the chat platform that an event makes. -/
def call? (w : Session) (e : SessionEvent) : Option Attempt := (w.report e).call?

theorem reads_of_call? (hw : w.Healthy) (h : w.call? e = some a) :
    ∃ now, e = .tick (.read now) ∧ w.inFlight? = some a.refresh ∧
      ∃ p, w.service.ReadsNow a.refresh a p := by
  cases e with
  | tick m =>
    obtain ⟨s, stage, sweeps⟩ := w
    have hmoves := TickStage.moves hw.coherent stage m
    have hcall : (stage.move s m).1.call? = some a := h
    generalize stage.move s m = o at hmoves hcall
    cases hmoves with
    | calls now hreads =>
      cases hcall
      exact ⟨now, rfl, rfl, _, hreads⟩
    | idle | takes | panics | fails | delivers | acknowledges | ignored => cases hcall
  | _ => cases h

/-- A tick that nothing interrupts has called the chat platform before it acknowledges the text. -/
theorem call?_of_acknowledging (hresting : w.tick = .resting) {start now : Instant}
    (h : (w.after [.tick (.begin start), .tick (.read now), .tick .deliver]).tick = .acknowledging a) :
    let v := w.react (.tick (.begin start))
    ∃ r, v.call? (.tick (.read now)) = some a ∧
      (w.after [.tick (.begin start), .tick (.read now), .tick .deliver]).service =
        (v.service.prepare now r).2 := by
  obtain ⟨s, stage, sweeps⟩ := w
  obtain rfl : stage = .resting := hresting
  simp only [after, List.foldl_cons, List.foldl_nil, call?, report, react, TickStage.move_begin] at h ⊢
  cases hnext : (s.scheduler.take start).1 with
  | none =>
    rw [hnext] at h
    cases h
  | some r =>
    refine ⟨r, ?_⟩
    simp only [hnext, TickStage.move_read] at h ⊢
    generalize Service.prepare _ now r = o at h ⊢
    obtain ⟨outcome | _ | a', s'⟩ := o
    · cases h
    · cases h
    · cases h
      exact ⟨rfl, rfl⟩

/-- Each call to the chat platform is made by a tick for a refresh that it took off the line, when the
guild was reachable, the refresh due and not expired. Then the lock of the guild is free, and the call goes to
the channel of the stored poll, with its text. If nothing interrupts a tick and it delivers the text of a
poll, no edit of that is unseen afterwards. A tick with nothing to do finds none in line that it might take,
and ends where it begins. -/
theorem calls_are_current (config : SchedulerConfig) (events : List SessionEvent) :
    let w := (fresh config).after events
    (∀ e a, w.call? e = some a →
      ∃ before start during now, events = before ++ .tick (.begin start) :: during ∧
        (fresh config).HoldsSince before start a.refresh during ∧ e = .tick (.read now) ∧
        (∃ h, (w.service.store.locks.acquire a.refresh.key.guild).1 = .ok h) ∧
        ∃ p text, w.tables.fetch a.refresh.key = .ok p ∧ p.message? = some text ∧
          a.posting = ⟨a.refresh.key.guild, p.channel, a.refresh.key.poll, text⟩) ∧
      (∀ start now later, w.tick = .resting →
        let v := w.after [.tick (.begin start), .tick (.read now), .tick .deliver]
        v.report (.tick (.acknowledge later)) = .ended .delivered →
          ∃ r, w.Takes start r ∧ ∃ row ∈ (v.react (.tick (.acknowledge later))).tables.row? r.key,
            row.hasUnseenEdit = false) ∧
      ∀ e, w.report e = .ended .idle → ∃ now, e = .tick (.begin now) ∧ w.tick = .resting ∧
        (∀ r ∈ w.scheduler.queue.toList, r.isEligible now w.scheduler.isReachable = false) ∧
        (w.react e).tick = .resting ∧ (w.react e).service.store = w.service.store := by
  intro w
  have hstart : (fresh config).Healthy := healthy_fresh config
  have hw : w.Healthy := hstart.after events
  refine ⟨fun e a hcall => ?_, fun start now later hresting => ?_, fun e hidle => ?_⟩
  · obtain ⟨now, rfl, hheld, p, hreads⟩ := reads_of_call? hw hcall
    obtain ⟨before, start, during, hevents, hholds⟩ := holdsSince_of_inFlight? hstart rfl hheld
    obtain ⟨hfree, hfetch, -⟩ := Store.refreshed_eq_ok_iff.mp hreads.read
    exact ⟨before, start, during, now, hevents, hholds, rfl, hfree, p, a.posting.text, hfetch,
      hreads.text, hreads.posting⟩
  · intro v hdelivered
    have hv : v.Healthy := hw.after _
    cases (ends_of_report hv hdelivered).1 with
    | failed hheld hclock hsettles => cases hclock
    | @delivered _ a htaken =>
      obtain ⟨r, hcall, hservice⟩ := call?_of_acknowledging hresting htaken
      obtain ⟨_, hread, hheld, p, hreads⟩ := reads_of_call? (hw.react _) hcall
      obtain ⟨hholds, -, -⟩ := prepare_settles (hw.react (.tick (.begin start))).coherent now r
      refine ⟨a.refresh, takes_of_begin hw hresting hheld, ?_⟩
      have hafter : (v.react (.tick (.acknowledge later))).tables =
          (v.service.finishTick later a (.ok ())).2.tables := by
        rw [tables, react, htaken]
        rfl
      rw [hafter]
      exact hreads.seen (hservice ▸ hholds) later
  · cases (ends_of_report hw hidle).1 with
    | failed hheld hclock hsettles =>
      generalize (w.react e).scheduler.queue = q at hsettles
      cases hsettles
    | idle now hresting hnone =>
      refine ⟨now, rfl, hresting, fun r hr => ?_, (ends_of_report hw hidle).2, ?_⟩
      · rw [Scheduler.take_fst, (RefreshQueue.splits_popEligible hw.sound now _).next] at hnone
        exact Bool.eq_false_iff.mpr (List.find?_eq_none.mp hnone r hr)
      · rw [service_begin hresting]

end

open ZoneHistories

/-- The poll in line is read and the chat platform called with its text. After the text is delivered no edit
of the poll is unseen, and the next tick has nothing to do. -/
theorem calls_are_current_of_lunch :
    let w := (fresh .everySecond).after requestLunch
    let tick : List SessionEvent := [.tick (.begin .earliest), .tick (.read .earliest), .tick .deliver]
    let delivered := (w.after tick).react (.tick (.acknowledge .earliest))
    (∃ a p text, (w.react (.tick (.begin .earliest))).call? (.tick (.read .earliest)) = some a ∧
      (w.react (.tick (.begin .earliest))).tables.fetch ⟨1, 7⟩ = .ok p ∧ p.message? = some text ∧
      a.posting = ⟨1, p.channel, 7, text⟩) ∧
      (∃ row ∈ delivered.tables.row? ⟨1, 7⟩, row.hasUnseenEdit = false) ∧
      (delivered.react (.tick (.begin .earliest))).service.store = delivered.service.store := by
  intro w tick delivered
  obtain ⟨hcalled, hresting, hline, hreport, hidle⟩ :
      ((w.react (.tick (.begin .earliest))).call? (.tick (.read .earliest))).map (·.refresh.key) =
          some ⟨1, 7⟩ ∧
        w.tick = .resting ∧ w.scheduler.queue.keys = [⟨1, 7⟩] ∧
        (w.after tick).report (.tick (.acknowledge .earliest)) = .ended .delivered ∧
        delivered.report (.tick (.begin .earliest)) = .ended .idle := by decide +kernel
  refine ⟨?_, ?_, ?_⟩
  · obtain ⟨a, hcall, hkey⟩ := Option.map_eq_some_iff.mp hcalled
    have hcurrent := (calls_are_current .everySecond (requestLunch ++ [.tick (.begin .earliest)])).1
    rw [after_concat] at hcurrent
    obtain ⟨-, -, -, -, -, -, -, -, p, text, hfetch, htext, hposting⟩ := hcurrent _ a hcall
    rw [hkey] at hfetch hposting
    exact ⟨a, p, text, hcall, hfetch, htext, hposting⟩
  · obtain ⟨r, htakes, hseen⟩ :=
      (calls_are_current .everySecond requestLunch).2.1 .earliest .earliest .earliest hresting hreport
    have hkey : r.key ∈ w.scheduler.queue.keys := List.mem_map_of_mem htakes.queued
    rw [hline] at hkey
    exact List.mem_singleton.mp hkey ▸ hseen
  · have hsplit : (fresh .everySecond).after (requestLunch ++ tick ++ [.tick (.acknowledge .earliest)]) =
        delivered := by rw [after_concat, after_append]
    have hrests := (calls_are_current .everySecond
      (requestLunch ++ tick ++ [.tick (.acknowledge .earliest)])).2.2
    rw [hsplit] at hrests
    obtain ⟨-, -, -, -, -, hstore⟩ := hrests _ hidle
    exact hstore

end Session
end PollKeeper
