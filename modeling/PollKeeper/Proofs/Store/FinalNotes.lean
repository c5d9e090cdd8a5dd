import PollKeeper.Proofs.Storage.Notes
import PollKeeper.Proofs.Store.Changes

/-!
# Notes about final refreshes

Which polls are listed as awaiting their final refresh, and what a change of the tables makes of the note
that it was asked for. The note is taken back when the duration of the poll changes, and by nothing else.
-/

namespace PollKeeper

open Time

/-- The instant lies after the start of a second. -/
def Time.Instant.IsPast (t : Instant) (second : Int) : Prop :=
  second < t.seconds ∨ second = t.seconds ∧ 0 < t.nanos

instance (t : Instant) (second : Int) : Decidable (t.IsPast second) :=
  inferInstanceAs (Decidable (_ ∨ _))

theorem Time.Instant.isPast_iff_lt_ceilSeconds {t : Instant} {second : Int} :
    t.IsPast second ↔ second < t.ceilSeconds := by
  simp only [IsPast, ceilSeconds]
  split <;> omega

/-- The second at which the poll ends. -/
def PollRow.endAt (r : PollRow) : Int := r.startAt + r.durationSeconds

namespace Tables

variable {t t' : Tables} {key : PollKey} {noted : List PollKey}

theorem mem_keysWhere (hkeys : (t.polls.map (·.key)).Nodup) {p : PollRow → Bool} :
    key ∈ t.keysWhere p ↔ ∃ r, t.row? key = some r ∧ p r = true := by
  simp only [keysWhere, List.mem_mergeSort, List.mem_map, List.mem_filter]
  constructor
  · rintro ⟨r, ⟨hr, hp⟩, rfl⟩
    exact ⟨r, row?_of_mem hkeys hr, hp⟩
  · rintro ⟨r, hr, hp⟩
    exact ⟨r, ⟨mem_of_row? hr, hp⟩, key_of_row? hr⟩

theorem nodup_keysWhere (hkeys : (t.polls.map (·.key)).Nodup) (p : PollRow → Bool) :
    (t.keysWhere p).Nodup := by
  rw [keysWhere, (List.mergeSort_perm _ _).nodup_iff]
  exact hkeys.sublist (List.filter_sublist.map _)

/-- A poll is listed as awaiting its final refresh from the first moment after its end on, until that
was noted. -/
theorem mem_awaitingFinal (hkeys : (t.polls.map (·.key)).Nodup) {now : Instant} :
    key ∈ t.awaitingFinal now.ceilSeconds ↔
      ∃ r, t.row? key = some r ∧ r.finalRefreshed = 0 ∧ now.IsPast r.endAt := by
  simp only [awaitingFinal, mem_keysWhere hkeys, Bool.and_eq_true, decide_eq_true_eq, PollRow.endedBefore,
    Instant.isPast_iff_lt_ceilSeconds, PollRow.endAt]

end Tables

structure PollRow.Becomes (r r' : PollRow) (noted : Prop) : Prop where
  startAt : r'.startAt = r.startAt
  awaits : r'.finalRefreshed = 0 ↔
    r'.durationSeconds ≠ r.durationSeconds ∨ r.finalRefreshed = 0 ∧ ¬ noted

theorem PollRow.Becomes.refl (r : PollRow) : r.Becomes r False := ⟨rfl, by simp⟩

namespace Tables

variable {t t' u : Tables} {key : PollKey} {noted : List PollKey}

/-- A change of the tables that notes some final refreshes. New polls await theirs. -/
structure Becomes (t : Tables) (noted : List PollKey) (t' : Tables) : Prop where
  distinct : (t.polls.map (·.key)).Nodup → (t'.polls.map (·.key)).Nodup
  row : ∀ key r', t'.row? key = some r' →
    (∃ r, t.row? key = some r ∧ r.Becomes r' (key ∈ noted)) ∨
      t.row? key = none ∧ r'.finalRefreshed = 0

/-- Only the rows of the polls matter. -/
theorem Becomes.congr (h : t.Becomes noted t') (hpolls : u.polls = t'.polls) : t.Becomes noted u := by
  refine ⟨fun hd => hpolls ▸ h.distinct hd, fun key r' hr => h.row key r' ?_⟩
  have hrow : u.row? key = t'.row? key := by simp only [row?, hpolls]
  exact hrow ▸ hr

theorem Becomes.refl (t : Tables) : t.Becomes [] t := by
  refine ⟨id, fun key r hr => .inl ⟨r, hr, ?_⟩⟩
  simpa using PollRow.Becomes.refl r

theorem Thins.becomes (h : t.Thins t') : t.Becomes [] t' := by
  refine ⟨h.distinct, fun key r hr => ?_⟩
  rcases h.slice key with hsame | hgone
  · have hrow : t'.row? key = t.row? key := congrArg PollSlice.row hsame
    exact (Becomes.refl t).row key r (hrow ▸ hr)
  · have hrow : t'.row? key = none := congrArg PollSlice.row hgone
    rw [hrow] at hr
    cases hr

theorem becomes_modifyRow {f : PollRow → PollRow} (hf : KeepsKey f)
    (hrow : ∀ r : PollRow, r.Becomes (f r) False) (t : Tables) (key : PollKey) :
    t.Becomes [] (t.modifyRow key f) := by
  refine ⟨fun hd => by rwa [keys_modifyRow hf], fun other r' hr => ?_⟩
  rw [row?_modifyRow hf] at hr
  split at hr
  · next hkey =>
    subst hkey
    obtain ⟨r, hold, rfl⟩ := Option.map_eq_some_iff.mp hr
    refine .inl ⟨r, hold, ?_⟩
    simpa using hrow r
  · exact (Becomes.refl t).row other r' hr

/-- Acknowledged edits leave the note alone; noted final refreshes are awaited no longer. -/
theorem becomes_notes (t : Tables) (seen : List EditStamp) (noted : List PollKey) :
    t.Becomes noted ((t.markSeen seen).2.markFinal noted).2 := by
  refine ⟨fun hd => ?_, fun key r' hr => .inl ?_⟩
  · rwa [(sameContent_markFinal _ noted).keys, (sameContent_markSeen t seen).keys]
  · rw [row?_markFinal, row?_markSeen, Option.map_map] at hr
    obtain ⟨r, hold, rfl⟩ := Option.map_eq_some_iff.mp hr
    refine ⟨r, hold, ?_⟩
    obtain ⟨note, hnote, -⟩ := r.afterSeen_eq seen
    rw [Function.comp_apply, hnote]
    split
    · next hnoted => exact ⟨rfl, by simp [hnoted.1]⟩
    · next hnoted =>
      refine ⟨rfl, ?_⟩
      simpa using fun hawaits hmem => hnoted ⟨hmem, hawaits⟩

private theorem becomes_create {p : Poll} {now : Instant} (h : t.create key p now = .ok t') :
    t.Becomes [] t' := by
  have hdistinct := (changes_create h).distinct
  obtain ⟨hnew, rfl⟩ := insertPoll_eq_ok (create_eq_ok h).2
  refine ⟨hdistinct, fun other r hr => ?_⟩
  rw [row?_withPoll t _ _ hnew] at hr
  split at hr
  · next hkey =>
    cases hr
    exact .inr ⟨hkey ▸ hnew, rfl⟩
  · exact (Becomes.refl t).row other r hr

private theorem becomes_revise {p : Poll} {now : Instant} (h : t.revise key p now = .ok t') :
    t.Becomes [] t' := by
  obtain ⟨-, rfl⟩ := modifyRow?_eq_ok (revise_eq_ok h).2
  refine becomes_modifyRow (keepsKey_withDetails _ _ _ _) (fun r => ⟨rfl, ?_⟩) t key
  by_cases hsame : r.durationSeconds = p.settings.seconds
  · simp [PollRow.withDetails, hsame]
  · simp [PollRow.withDetails, hsame, Ne.symm hsame]

private theorem becomes_castAnswers {voter : UserId} {chosen : IdSet} {now : Instant}
    (h : t.castAnswers key voter chosen now = .ok t') : t.Becomes [] t' := by
  obtain ⟨q, -, -, hreplaced⟩ := castAnswers_eq_ok h
  obtain ⟨added, rfl, -⟩ := replaceAnswers_eq_ok hreplaced
  have hstamped := becomes_modifyRow (f := fun r => { r with editedAt := now.millis }) (fun _ => rfl)
    (fun r => ⟨rfl, by simp⟩) t key
  exact hstamped.congr rfl

private theorem becomes_serve {guild : GuildId} {now : Instant} {r : GuildRequest} {a : Answer}
    (h : t.serve guild now r = .ok (a, t')) : t.Becomes [] t' := by
  cases r with
  | settings | poll id | lastEdit id =>
    obtain ⟨x, -, hx⟩ := bind_eq_ok h
    cases hx
    exact .refl t
  | setSettings s =>
    cases h
    exact (thins_putSettings t _).becomes
  | insert id p =>
    obtain ⟨x, hx, he⟩ := bind_eq_ok h
    cases he
    exact becomes_create hx
  | update id p =>
    obtain ⟨x, hx, he⟩ := bind_eq_ok h
    cases he
    exact becomes_revise hx
  | edit id e =>
    obtain ⟨⟨p, x⟩, hx, he⟩ := bind_eq_ok h
    cases he
    obtain ⟨q, -, -, hrevise⟩ := amend_eq_ok hx
    exact becomes_revise hrevise
  | cast id voter chosen =>
    obtain ⟨x, hx, he⟩ := bind_eq_ok h
    cases he
    exact becomes_castAnswers hx
  | pollIds =>
    cases h
    exact .refl t

end Tables

/-- No event of a client notes a final refresh. -/
theorem DirectStore.becomes_react (s : DirectStore) {e : StoreEvent} (he : e.isClients) :
    s.tables.Becomes [] (s.react e).2.tables := by
  have hstep := s.serves_or_thins e
  cases hgranted : e.granted? (s.react e).1 with
  | none =>
    rw [hgranted] at hstep
    exact (hstep.2 he).becomes
  | some granted =>
    rw [hgranted] at hstep
    obtain ⟨now, a, hserve, -⟩ := hstep
    exact Tables.becomes_serve hserve

end PollKeeper
