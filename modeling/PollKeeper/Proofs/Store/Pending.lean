import PollKeeper.Proofs.Store.Soundness

/-!
# Refreshes that are kept

A refresh that is kept for later stays until it is taken out or its poll is deleted. Nothing else that
happens to a store touches it.
-/

namespace PollKeeper

open Time StoreAction

namespace Tables

variable {t t' : Tables} {key : PollKey}

theorem pending_serve {guild : GuildId} {now : Instant} {r : GuildRequest} {a : Answer}
    (h : t.serve guild now r = .ok (a, t')) : t'.pending = t.pending := by
  cases r with
  | settings | poll id | lastEdit id =>
    obtain ⟨x, -, hx⟩ := bind_eq_ok h
    cases hx
    rfl
  | setSettings s =>
    cases h
    rfl
  | insert id p =>
    obtain ⟨x, hx, he⟩ := bind_eq_ok h
    cases he
    obtain ⟨-, rfl⟩ := insertPoll_eq_ok (create_eq_ok hx).2
    rfl
  | update id p =>
    obtain ⟨x, hx, he⟩ := bind_eq_ok h
    cases he
    obtain ⟨-, rfl⟩ := modifyRow?_eq_ok (revise_eq_ok hx).2
    rfl
  | edit id e =>
    obtain ⟨⟨p, x⟩, hx, he⟩ := bind_eq_ok h
    cases he
    obtain ⟨q, -, -, hrevise⟩ := amend_eq_ok hx
    obtain ⟨-, rfl⟩ := modifyRow?_eq_ok (revise_eq_ok hrevise).2
    rfl
  | cast id voter chosen =>
    obtain ⟨x, hx, he⟩ := bind_eq_ok h
    cases he
    obtain ⟨q, -, -, hreplaced⟩ := castAnswers_eq_ok hx
    obtain ⟨added, rfl, -⟩ := replaceAnswers_eq_ok hreplaced
    rfl
  | pollIds =>
    cases h
    rfl

end Tables

def StoreEvent.SparesPending (guild : GuildId) : StoreEvent → Prop
  | .request _ (.persist keys) => ∀ key ∈ keys, key.guild ≠ guild
  | .request _ (.takePersisted other) => other ≠ guild
  | _ => True

namespace DirectStore

/-- A poll that has no row any more was deleted, if it had one. -/
theorem mem_pending_deleteExpired (s : DirectStore) (before : Instant) {key : PollKey}
    (hkept : (s.tables.row? key).isSome → ((s.deleteExpired before).2.tables.row? key).isSome) :
    key ∈ (s.deleteExpired before).2.tables.pending ↔ key ∈ s.tables.pending := by
  have hsame := deleteExpired_keeps (P := fun t => t.slice key = s.tables.slice key ∨
    (s.tables.row? key).isSome ∧ t.row? key = none) (fun t removed hremoved ht => ?_) s before (.inl rfl)
  · rcases hsame with hsame | ⟨hstored, hgone⟩
    · exact Tables.mem_pending_congr hsame
    · have hstays := hkept hstored
      rw [hgone] at hstays
      cases hstays
  · have hslice := Tables.slice_removePoll t removed key
    split at hslice
    · next hkey =>
      subst hkey
      refine .inr ⟨?_, congrArg PollSlice.row hslice⟩
      rcases ht with hsame | ⟨hstored, -⟩
      · have hrow : t.row? key = s.tables.row? key := congrArg PollSlice.row hsame
        exact hrow ▸ hremoved
      · exact hstored
    · refine ht.imp hslice.trans fun ⟨hstored, hgone⟩ => ⟨hstored, ?_⟩
      have hrow : (t.removePoll removed).row? key = t.row? key := congrArg PollSlice.row hslice
      exact hrow.trans hgone

theorem mem_pending_react (s : DirectStore) {e : StoreEvent} {key : PollKey}
    (he : e.SparesPending key.guild)
    (hkept : (s.tables.row? key).isSome → ((s.react e).2.tables.row? key).isSome) :
    key ∈ (s.react e).2.tables.pending ↔ key ∈ s.tables.pending := by
  cases e with
  | request now r =>
    cases r with
    | ofGuild h r =>
      simp only [react, answer]
      split
      · cases hr : s.tables.serve h.guild now r with
        | error e => exact .rfl
        | ok x => exact iff_of_eq (congrArg (key ∈ ·) (Tables.pending_serve hr))
      · exact .rfl
    | deleteExpired before => exact mem_pending_deleteExpired s before hkept
    | markFinal keys =>
      exact iff_of_eq (congrArg (key ∈ ·) (Tables.pending_markFinal keys s.tables))
    | markSeen edits =>
      exact iff_of_eq (congrArg (key ∈ ·) (Tables.pending_markSeen _ s.tables))
    | persist keys =>
      obtain ⟨added, hsaved, hmem⟩ := Tables.savePending_eq keys s.tables
      have htables : (s.react (.request now (.persist keys))).2.tables =
          { s.tables with pending := s.tables.pending ++ added } := hsaved
      rw [htables]
      exact (hmem key).trans (or_iff_left fun hk => he key hk rfl)
    | takePersisted other =>
      have hne : key.guild ≠ other := fun h => he h.symm
      exact List.mem_filter.trans (and_iff_left (decide_eq_true hne))
    | editedSince cutoff =>
      simp only [react, answer]
      cases (s.tables.unseenSince cutoff.millis).mapM PollEdit.ofStamp <;> exact .rfl
    | endedUnrefreshed _ | clearCaches => exact .rfl
  | acquire _ | acquireUnless _ _ | wait _ | giveUp _ | release _ | evict _ _ _ => exact .rfl

end DirectStore

namespace Store

/-- In a run of events no poll of a guild is deleted, and nobody else keeps or takes out its refreshes. -/
def KeepsPolls (guild : GuildId) (s : Store) : List StoreEvent → Prop
  | [] => True
  | e :: rest =>
    e.SparesPending guild ∧
      (∀ id, (s.database.tables.row? ⟨guild, id⟩).isSome →
        ((s.react e).2.database.tables.row? ⟨guild, id⟩).isSome) ∧
      KeepsPolls guild (s.react e).2 rest

/-- What was kept for a guild is still kept. -/
theorem mem_pending_after {s : Store} (hs : s.Coherent) {guild : GuildId} {events : List StoreEvent}
    (hkeeps : s.KeepsPolls guild events) {key : PollKey} (hkey : key.guild = guild) :
    key ∈ (s.after events).database.tables.pending ↔ key ∈ s.database.tables.pending := by
  induction events generalizing s with
  | nil => exact .rfl
  | cons e rest ih =>
    obtain ⟨hspares, hkept, hrest⟩ := hkeeps
    obtain ⟨hcoherent, -, htables⟩ := leaves_react hs e
    refine (ih hcoherent hrest).trans ?_
    subst hkey
    have hrow := hkept key.poll
    rw [htables] at hrow ⊢
    exact s.direct.mem_pending_react hspares hrow

end Store
end PollKeeper
