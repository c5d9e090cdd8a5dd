import PollKeeper.Proofs.Store.Edits

/-!
# One end for all

Ballots compare the end of a poll with the clock, to the nanosecond. The tables compare whole seconds with a
rounded cutoff, for those who look for ended polls and for those who delete them. All of them agree about
every poll, on either side of 1970 and during a leap second too.
-/

namespace PollKeeper

open Time

/-- The start of a second is over as soon as the second or any later one has begun to run. -/
theorem Time.Instant.lt_iff_lt_ceilSeconds {finish now : Instant} (hfinish : finish.nanos = 0) :
    finish < now ↔ finish.seconds < now.ceilSeconds := by
  rw [← isPast_iff_lt_ceilSeconds, IsPast, ← hfinish]
  rfl

theorem Poll.hasEnded?_eq_some_iff {p : Poll} {finish : Instant} (hfinish : p.endsAt? = some finish)
    (now : Instant) : p.hasEnded? now = some true ↔ finish < now := by
  simp [hasEnded?, hfinish]

namespace Store

/-- Whenever a poll is stored whose end can be represented: It has ended at an instant just if that lies after
its end, and just if its last second lies before the cutoff of that instant. Then, and only then, it is listed
as ended and a deletion takes it away with all its rows, and it awaits its final refresh unless that was noted
already. Otherwise the deletion changes nothing. -/
theorem endings_agree (events : List StoreEvent) {key : PollKey} {p : Poll} {finish : Instant}
    (hp : (fresh.after events).database.tables.fetch key = .ok p) (hfinish : p.endsAt? = some finish)
    (now : Instant) :
    let s := fresh.after events
    let cutoff := now.ceilSeconds
    let deleting := (deleteEnded cutoff key).outcome s
    (p.hasEnded? now = some true ↔ finish < now) ∧
      (finish < now ↔ p.start.seconds + p.settings.seconds < cutoff) ∧
      (finish < now ↔ key ∈ s.database.tables.endedBefore cutoff) ∧
      (finish < now ↔ deleting.1 = .ok true) ∧
      (if finish < now then s.database.tables.Deletes (· = key) 1 deleting.2.database.tables
        else deleting.2.database.tables = s.database.tables) ∧
      ∃ r listed, s.database.tables.row? key = some r ∧
        ((endedUnrefreshed now).outcome s).1 = .ok listed ∧
        (r.finalRefreshed = 0 → (finish < now ↔ key ∈ listed)) := by
  intro s cutoff deleting
  have hs : s.InOrder := inOrder_after events
  obtain ⟨o, ho⟩ := hs.sound key
  obtain rfl := Tables.eq_some_of_fetch ho hp
  obtain ⟨r, hr⟩ := Option.isSome_iff_exists.mp (Tables.isSome_row? ho)
  obtain ⟨hsecond, hnanos⟩ := Poll.of_endsAt?_eq_some ho.2.valid.start hfinish
  have hcutoff : finish < now ↔ p.start.seconds + p.settings.seconds < cutoff :=
    hsecond ▸ Instant.lt_iff_lt_ceilSeconds hnanos
  have hended : finish < now ↔ s.database.tables.HasEnded cutoff key :=
    hcutoff.trans (Tables.hasEnded_of_denotes ho).symm
  have hdeleting := (serves_deleteEnded cutoff key).leaves hs.coherent
  have hresult : deleting.1 = .ok (s.database.tables.removeEnded key cutoff).1 := hdeleting.result
  have htables : deleting.2.database.tables = (s.database.tables.removeEnded key cutoff).2 := hdeleting.tables
  refine ⟨Poll.hasEnded?_eq_some_iff hfinish now, hcutoff,
    hended.trans (Tables.mem_endedBefore hs.keys.polls).symm, ?_, ?_, r, _, hr,
    ((Serves.look _).leaves_reading hs.coherent).result, fun hawaits => ?_⟩
  · rw [hresult, hended]
    by_cases h : s.database.tables.HasEnded cutoff key
    · simp [h, Tables.removeEnded_of_hasEnded h]
    · simp [h, Tables.removeEnded_of_not_hasEnded h]
  · rw [htables]
    split
    · next h =>
      rw [Tables.removeEnded_of_hasEnded (hended.mp h)]
      exact Tables.deletes_removePoll hr
    · next h => rw [Tables.removeEnded_of_not_hasEnded (mt hended.mpr h)]
  · rw [hended, Tables.mem_awaitingFinal hs.keys.polls]
    simp [Tables.HasEnded, hr, hawaits, Instant.isPast_iff_lt_ceilSeconds, cutoff]

/-- A poll that ended long before 1970: at its end itself it is still open, a nanosecond later it is over. -/
theorem endings_agree_of_lunch :
    let s := fresh.after (inserting .lunch)
    let finish : Instant := ⟨-8334601142400, 0, by decide, by decide, by decide⟩
    let later : Instant := ⟨-8334601142400, 1, by decide, by decide, by decide⟩
    s.database.tables.fetch ⟨1, 7⟩ = .ok .lunch ∧ Poll.lunch.endsAt? = some finish ∧
      ¬ Poll.lunch.hasEnded? finish = some true ∧
      ((deleteEnded finish.ceilSeconds ⟨1, 7⟩).outcome s).2.database.tables = s.database.tables ∧
      Poll.lunch.hasEnded? later = some true ∧
      ((deleteEnded later.ceilSeconds ⟨1, 7⟩).outcome s).1 = .ok true ∧
      ∃ listed, ((endedUnrefreshed later).outcome s).1 = .ok listed ∧ ⟨1, 7⟩ ∈ listed := by
  intro s finish later
  have hfetch : s.database.tables.fetch ⟨1, 7⟩ = .ok .lunch :=
    Tables.fetch_of_denotes (denotes_inserting rfl rfl)
  have hfinish : Poll.lunch.endsAt? = some finish := by decide
  have hopen : ¬ finish < finish := by decide
  have hover : finish < later := by decide
  obtain ⟨hended, -, -, -, hkept, -⟩ := endings_agree (inserting .lunch) hfetch hfinish finish
  obtain ⟨hended', -, -, hdeleted, -, r, listed, hr, hlisted, hmem⟩ :=
    endings_agree (inserting .lunch) hfetch hfinish later
  rw [if_neg hopen] at hkept
  have hawaits : r.finalRefreshed = 0 := by
    have hrow : s.database.tables.row? ⟨1, 7⟩ = some (.ofPoll .lunch Instant.earliest.millis) := rfl
    cases hrow.symm.trans hr
    rfl
  exact ⟨hfetch, hfinish, mt hended.mp hopen, hkept, hended'.mpr hover, hdeleted.mp hover, listed, hlisted,
    (hmem hawaits).mp hover⟩

end Store
end PollKeeper
