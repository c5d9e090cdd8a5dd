import PollKeeper.Proofs.Poll.Validity
import PollKeeper.Proofs.Refresh.Phases
import PollKeeper.Poll.Ballot
import PollKeeper.Time.ZoneHistories

/-!
# Polls without an end

A poll may be accepted although its end cannot be represented. Then it has no message and takes no
ballots, and a tick that refreshes it breaks down. Nothing else makes a tick break down.
-/

namespace PollKeeper

open Time

private theorem Tables.isValid_of_fetch {t : Tables} {key : PollKey} {p : Poll} (h : t.fetch key = .ok p) :
    p.IsValid := by
  have hpoll := fetch_eq_ok h
  simp only [poll?] at hpoll
  cases hr : t.row? key with
  | none => rw [hr] at hpoll; cases hpoll
  | some r =>
    rw [hr] at hpoll
    cases hread : r.toPoll (t.choicesOf key) (t.answersOf key) with
    | error e => simp only [hread] at hpoll; cases hpoll
    | ok q =>
      simp only [hread] at hpoll
      obtain rfl : q = p := Option.some.inj (Except.ok.inj hpoll)
      obtain ⟨settings, -, hread⟩ := bind_eq_ok hread
      cases hstart : Instant.ofSeconds? r.startAt with
      | none => rw [hstart] at hread; cases hread
      | some start =>
        simp only [hstart] at hread
        split at hread
        · next hvalid =>
          cases hread
          exact Poll.validate_eq_ok_iff.mp hvalid
        · cases hread

namespace Service

/-- A tick breaks down if it takes a refresh off the queue, its guild is not busy, and the poll that it
reads has no end in range. -/
theorem beginTick_panicked_iff [ZoneClocks] {s : Service} (hs : s.store.Coherent) (now : Instant) :
    (s.beginTick now).1 = .panicked ↔
      ∃ r p edit, (s.scheduler.take now).1 = some r ∧ s.store.refreshed r.key = .ok (p, edit) ∧
        ¬ p.EndsInRange := by
  have hmessage : ∀ {key : PollKey} {p : Poll} {edit : PollEdit},
      s.store.refreshed key = .ok (p, edit) → (p.message? = none ↔ ¬ p.EndsInRange) := by
    intro key p edit h
    obtain ⟨-, hfetch, -⟩ := Store.refreshed_eq_ok_iff.mp h
    have hend := Poll.isSome_endsAt? (Tables.isValid_of_fetch hfetch).start
    rw [← hend, Poll.message?, Option.map_eq_none_iff, Option.not_isSome_iff_eq_none]
  simp only [beginTick]
  cases hnext : (s.scheduler.take now).1 with
  | none => simp
  | some r =>
    have hprepare := prepare_panicked_iff (s := { s with scheduler := (s.scheduler.take now).2 }) hs
      now r
    refine hprepare.trans ⟨?_, ?_⟩
    · rintro ⟨p, edit, hread, hnone⟩
      exact ⟨r, p, edit, rfl, hread, (hmessage hread).mp hnone⟩
    · rintro ⟨r', p, edit, hr, hread, hend⟩
      cases hr
      exact ⟨p, edit, hread, (hmessage hread).mpr hend⟩

end Service

/-- For a poll that was accepted, everything that looks at its end is defined just if the end can be
represented; a tick breaks down just if it comes to refresh a stored poll for which that is not so. -/
theorem defined_iff_endsInRange [ZoneClocks] {p : Poll} (hp : p.validate = .ok ()) (now : Instant)
    (voter : UserId) (chosen : IdSet) (events : List StoreEvent) (scheduler : Scheduler) :
    (p.endsAt?.isSome ↔ p.EndsInRange) ∧ ((p.hasEnded? now).isSome ↔ p.EndsInRange) ∧
    ((p.checkBallot? voter chosen now).isSome ↔ p.EndsInRange) ∧
    (p.message?.isSome ↔ p.EndsInRange) ∧
    ((Service.beginTick ⟨Store.fresh.after events, scheduler⟩ now).1 = .panicked ↔
      ∃ r q edit, (scheduler.take now).1 = some r ∧
        (∃ h, ((Store.fresh.after events).locks.acquire r.key.guild).1 = .ok h) ∧
        (Store.fresh.after events).database.tables.fetch r.key = .ok q ∧
        (Store.fresh.after events).database.tables.latestEdit r.key = .ok edit ∧
        ¬ q.EndsInRange) := by
  have hend := Poll.isSome_endsAt? (Poll.validate_eq_ok_iff.mp hp).start
  refine ⟨hend, ?_, ?_, ?_, ?_⟩
  · rwa [Poll.isSome_hasEnded?]
  · rwa [Poll.checkBallot?, Option.isSome_map, Poll.isSome_hasEnded?]
  · rwa [Poll.message?, Option.isSome_map]
  · rw [Service.beginTick_panicked_iff (Store.coherent_after events) now]
    constructor
    · rintro ⟨r, q, edit, hr, hread, hout⟩
      obtain ⟨hlock, hfetch, hedit⟩ := Store.refreshed_eq_ok_iff.mp hread
      exact ⟨r, q, edit, hr, hlock, hfetch, hedit, hout⟩
    · rintro ⟨r, q, edit, hr, hlock, hfetch, hedit, hout⟩
      exact ⟨r, q, edit, hr, Store.refreshed_eq_ok_iff.mpr ⟨hlock, hfetch, hedit⟩, hout⟩

open ZoneHistories

/-- The end of a poll that was accepted is in range, and so the poll has a message. -/
theorem lunch_isSome_message :
    Poll.lunch.validate = .ok () ∧ Poll.lunch.EndsInRange ∧
      (Poll.lunch.message?.isSome ↔ Poll.lunch.EndsInRange) :=
  ⟨rfl, by decide,
    (defined_iff_endsInRange rfl .earliest 5 .empty [] (.fresh .everySecond)).2.2.2.1⟩

/-- A poll that runs for a day from the last second of all. -/
def Poll.lastMinute : Poll :=
  { lunch with start := .floorSecond .latest, choices := [⟨1, "Here", .empty⟩] }

/-- The poll is stored, nothing that looks at its end is defined, and the tick that refreshes it
breaks down. -/
theorem lastMinute_panics :
    Poll.lastMinute.validate = .ok () ∧ Poll.lastMinute.endsAt? = none ∧
      Poll.lastMinute.hasEnded? .earliest = none ∧
      Poll.lastMinute.checkBallot? 5 (.ofList [1]) .earliest = none ∧ Poll.lastMinute.message? = none ∧
      (Service.beginTick
        ⟨Store.fresh.after [.acquire 1, .request .earliest (.ofGuild ⟨1, 0⟩ (.insert 7 .lastMinute)),
            .release ⟨1, 0⟩],
          (((Scheduler.fresh .everySecond).markReachable 1).enqueue .earliest ⟨1, 7⟩).2⟩
        .earliest).1 = .panicked := by
  decide +kernel

end PollKeeper
