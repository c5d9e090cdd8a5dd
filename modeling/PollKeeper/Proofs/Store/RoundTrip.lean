import PollKeeper.Proofs.Store.Expiry
import PollKeeper.Proofs.Store.LastCast

/-!
# New polls are read as they were inserted

A poll is put into the rows of three tables and put together from them again. What a poll before it has
left under the same key plays no part, and neither does what happens to other polls in the meantime.
-/

namespace PollKeeper

open Time StoreAction

/-- All that is stored about a poll just after it was inserted. -/
def PollSlice.inserted (p : Poll) (editedAt : Int) (pending : Bool) : PollSlice :=
  ⟨some (.ofPoll p editedAt), Tables.choiceRows p.key p.choices.zipIdx,
    Tables.answerRows p.key p.choices.zipIdx, pending⟩

namespace Tables

variable {t : Tables} {key : PollKey} {p : Poll}

theorem create_eq (ht : t.Sound) (hvalid : (p.under key).validate = .ok ()) (now : Instant) :
    t.create key p now =
      if (t.row? key).isSome then .error .alreadyExists else .ok (t.withPoll (p.under key) now.millis) := by
  have hinsert : t.create key p now = (t.insertPoll (p.under key) now.millis).mapError .ofStorage := by
    rw [create, hvalid]
    rfl
  have hkey : (p.under key).key = key := rfl
  rw [hinsert, insertPoll_eq, hkey]
  split
  · rfl
  · next hnew =>
    obtain ⟨o, ho⟩ := ht key
    obtain rfl := ho.eq_none (Option.not_isSome_iff_eq_none.mp hnew)
    rw [if_pos (admits_new ho (Poll.validate_eq_ok_iff.mp hvalid).ids)]
    rfl

/-- Nothing is inherited from a poll that was stored under the key before. -/
theorem slice_inserted (ht : t.Sound) (hnew : t.row? key = none) (editedAt : Int) :
    (t.withPoll (p.under key) editedAt).slice key = .inserted (p.under key) editedAt (t.slice key).pending := by
  have hkey : (p.under key).key = key := rfl
  obtain ⟨o, ho⟩ := ht key
  obtain rfl := ho.eq_none hnew
  obtain ⟨-, hchoices, hanswers⟩ := ho
  rw [slice_withPoll t (p.under key) editedAt hnew, hkey, if_pos rfl, hchoices, hanswers]
  rfl

end Tables

/-- No change of the poll is granted, and no sweep finds it ended and the lock of its guild free. -/
def Store.LeavesAlone (s : Store) (key : PollKey) : StoreEvent → Prop
  | .request _ (.deleteExpired before) =>
    s.locks.lockOf key.guild = .free → ∀ r, s.database.tables.row? key = some r → ¬ before.IsPast r.endAt
  | e => (e.change? (s.react e).1).map (·.1) ≠ some key

/-- In a run of events the poll is left alone. -/
def Store.Untouched (key : PollKey) : Store → List StoreEvent → Prop
  | _, [] => True
  | s, e :: rest => s.LeavesAlone key e ∧ (s.react e).2.Untouched key rest

private theorem StoreEvent.leavesOf_of_change? {e : StoreEvent} {reply : StoreReply} {key : PollKey}
    (q : Poll) (h : (e.change? reply).map (·.1) ≠ some key) : e.leavesOf key reply q = q := by
  simp only [leavesOf]
  cases hgranted : e.granted? reply with
  | none => rfl
  | some granted =>
    obtain ⟨guild, r⟩ := granted
    obtain ⟨now, handle, rfl, rfl⟩ := eq_of_granted? hgranted
    have hother : ∀ id, r.changed? = some id → key ≠ ⟨handle.guild, id⟩ := by
      rintro id hid rfl
      cases reply with
      | answer result =>
        cases result with
        | ok a => exact h (by simp [change?, hid])
        | error e => cases hgranted
      | handle _ | silent => cases hgranted
    cases r with
    | update id _ | edit id _ | cast id _ _ => exact if_neg (hother id rfl)
    | settings | setSettings _ | poll _ | insert _ _ | pollIds | lastEdit _ => rfl

namespace Store

variable {s : Store} {key : PollKey} {q : Poll}

private theorem denotes_of_leavesAlone (hs : s.InOrder)
    (hq : (s.database.tables.slice key).Denotes key (some q)) {e : StoreEvent} (he : s.LeavesAlone key e) :
    ((s.react e).2.database.tables.slice key).Denotes key (some q) := by
  obtain ⟨-, hreply, htables⟩ := leaves_react hs.coherent e
  rw [htables]
  by_cases hsweep : ∃ now before, e = .request now (.deleteExpired before)
  · obtain ⟨now, before, rfl⟩ := hsweep
    have hdeletes := DirectStore.deletes_deleteExpired (s := s.direct) hs.proper hs.keys.polls before
    have hkept : ((s.direct.deleteExpired before).2.tables.slice key) = s.database.tables.slice key := by
      refine hdeletes.kept key ?_
      rintro ⟨hfree, r, hr, hended⟩
      exact he hfree r hr (Instant.isPast_iff_lt_ceilSeconds.mpr hended)
    exact hkept.symm ▸ hq
  · have hchange : (e.change? (s.react e).1).map (·.1) ≠ some key := by
      unfold LeavesAlone at he
      split at he
      · exact absurd ⟨_, _, rfl⟩ hsweep
      · exact he
    have hleaves := DirectStore.denotes_react (s := s.direct) hq fun now before h => hsweep ⟨now, before, h⟩
    rwa [← hreply, StoreEvent.leavesOf_of_change? q hchange] at hleaves

theorem denotes_after (hs : s.InOrder) (hq : (s.database.tables.slice key).Denotes key (some q))
    {events : List StoreEvent} (hevents : s.Untouched key events) :
    ((s.after events).database.tables.slice key).Denotes key (some q) := by
  induction events generalizing s with
  | nil => exact hq
  | cons e rest ih => exact ih (hs.react e) (denotes_of_leavesAlone hs hq hevents.1) hevents.2

/-- The holder of the lock reads the poll that is stored. -/
theorem answer_poll (hs : s.Coherent) (hq : (s.database.tables.slice key).Denotes key (some q)) {h : Handle}
    (hheld : s.locks.isHeld h) (hguild : h.guild = key.guild) (now : Instant) :
    (s.react (.request now (.ofGuild h (.poll key.poll)))).1 = .answer (.ok (.poll q)) := by
  have hserve : s.database.tables.serve h.guild now (.poll key.poll) = .ok (.poll q, s.database.tables) := by
    rw [hguild, Tables.serve, Tables.fetch_of_denotes hq]
    rfl
  have hreading := react_of_isHeld hs hheld now (.poll key.poll)
  rw [hserve] at hreading
  exact hreading.1

/-- A valid poll is inserted just if its key is free, and otherwise nothing changes. An inserted poll is
stored as if there had never been one under its key; as long as it is left alone, whoever holds the lock of
its guild reads it as it was inserted. -/
theorem insert_then_poll (before : List StoreEvent) (h : Handle) (id : PollId) (p : Poll) (now : Instant)
    (hheld : (fresh.after before).locks.isHeld h)
    (hvalid : (p.under ⟨h.guild, id⟩).validate = .ok ()) :
    let s := fresh.after before
    let key : PollKey := ⟨h.guild, id⟩
    let inserting := s.react (.request now (.ofGuild h (.insert id p)))
    if (s.database.tables.row? key).isSome then
      inserting.1 = .answer (.error .alreadyExists) ∧ inserting.2.database.tables = s.database.tables
    else
      inserting.1 = .answer (.ok .done) ∧
      inserting.2.database.tables.slice key =
        .inserted (p.under key) now.millis (s.database.tables.slice key).pending ∧
      ∀ events, inserting.2.Untouched key events →
        ∀ reader moment, (inserting.2.after events).locks.isHeld reader → reader.guild = h.guild →
          ((inserting.2.after events).react (.request moment (.ofGuild reader (.poll id)))).1 =
            .answer (.ok (.poll (p.under key))) := by
  intro s key inserting
  have hs : s.InOrder := inOrder_after before
  have hcreate := Tables.create_eq hs.sound hvalid now
  obtain ⟨-, hreply, htables⟩ := leaves_react hs.coherent (.request now (.ofGuild h (.insert id p)))
  have hserve : s.direct.react (.request now (.ofGuild h (.insert id p))) =
      let served := s.direct.served ((s.database.tables.create key p now).map (.done, ·))
      (.answer served.1, served.2) := by
    have hheld' : s.direct.locks.isHeld h = true := hheld
    simp only [DirectStore.react, DirectStore.answer, if_pos hheld', Tables.serve]
    rfl
  split
  · next hstored =>
    rw [hcreate, if_pos hstored] at hserve
    exact ⟨hreply.trans (congrArg Prod.fst hserve), htables.trans (congrArg (·.2.tables) hserve)⟩
  · next hnew =>
    rw [if_neg hnew] at hcreate
    rw [hcreate] at hserve
    have hwith : inserting.2.database.tables = s.database.tables.withPoll (p.under key) now.millis :=
      htables.trans (congrArg (·.2.tables) hserve)
    refine ⟨hreply.trans (congrArg Prod.fst hserve), ?_, fun events hevents reader moment hreader hguild => ?_⟩
    · rw [hwith]
      exact Tables.slice_inserted hs.sound (Option.not_isSome_iff_eq_none.mp hnew) now.millis
    · obtain ⟨o, ho⟩ := hs.sound key
      have hq : (inserting.2.database.tables.slice key).Denotes key (some (p.under key)) :=
        hwith ▸ Tables.denotes_create ho hcreate
      have hinserted : inserting.2.InOrder := hs.react _
      exact answer_poll (hinserted.coherent.after events) (denotes_after hinserted hq hevents) hreader hguild
        moment

def lunchDeleted : List StoreEvent :=
  inserting .lunch ++
    [.request .latest (.markSeen [⟨⟨1, 7⟩, .earliest⟩]), .request .latest (.markFinal [⟨1, 7⟩]),
      .request .latest (.persist [⟨1, 7⟩]), .release ⟨1, 0⟩,
      .request .latest (.deleteExpired .latest), .acquire 1]

def dinner : Poll :=
  { Poll.lunch with
    title := "Dinner"
    choices := [⟨9, "Late", .ofList [6]⟩, ⟨-2, "Early", .ofList [5, 6]⟩, ⟨1, "Never", .empty⟩] }

/-- The caches are cleared, and a third poll is inserted. -/
theorem insert_then_poll_of_deleted :
    let s := fresh.after lunchDeleted
    let inserting := s.react (.request .latest (.ofGuild ⟨1, 2⟩ (.insert 7 dinner)))
    inserting.1 = .answer (.ok .done) ∧
      inserting.2.database.tables.slice ⟨1, 7⟩ = .inserted dinner Instant.latest.millis false ∧
      ((inserting.2.after [.request .latest .clearCaches,
          .request .latest (.ofGuild ⟨1, 2⟩ (.insert 8 .lunch))]).react
        (.request .latest (.ofGuild ⟨1, 2⟩ (.poll 7)))).1 = .answer (.ok (.poll dinner)) := by
  have h := insert_then_poll lunchDeleted ⟨1, 2⟩ 7 dinner .latest
    (by decide +kernel) rfl
  have hfree : ¬ ((fresh.after lunchDeleted).database.tables.row? ⟨1, 7⟩).isSome := by decide +kernel
  have hpending : ((fresh.after lunchDeleted).database.tables.slice ⟨1, 7⟩).pending = false := by
    decide +kernel
  simp only [if_neg hfree, hpending] at h
  obtain ⟨hdone, hslice, hread⟩ := h
  refine ⟨hdone, hslice, hread [.request .latest .clearCaches, .request .latest (.ofGuild ⟨1, 2⟩
    (.insert 8 .lunch))] ⟨?_, ?_, trivial⟩ ⟨1, 2⟩ .latest (by decide +kernel) rfl⟩
  · exact nofun
  · show ¬ _ = _
    decide +kernel

end Store
end PollKeeper
