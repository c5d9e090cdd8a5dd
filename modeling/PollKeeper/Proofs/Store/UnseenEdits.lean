import PollKeeper.Proofs.Store.Acknowledgement
import PollKeeper.Proofs.Store.FinalNotes

/-!
# Unseen edits

Which edits of the polls are unseen, and what an operation of the store makes of them. Acknowledgements
and deletions only ever take unseen edits away; a new one bears the clock reading of the change.
-/

namespace PollKeeper

open Time

namespace Tables

variable {t t' : Tables} {key : PollKey} {edit : EditStamp} {stamp : Int}

/-- The edit is the last one of a stored poll, and was not acknowledged. -/
def IsUnseen (t : Tables) (edit : EditStamp) : Prop :=
  ∃ r, t.row? edit.key = some r ∧ r.hasUnseenEdit = true ∧ r.editedAt = edit.editedAt

theorem isUnseen_congr (h : t'.polls = t.polls) : t'.IsUnseen edit ↔ t.IsUnseen edit := by
  simp only [IsUnseen, row?, h]

theorem hasUnseenEdit_eq_false_of (hnone : ∀ edit, ¬ t.IsUnseen edit)
    (hkeys : (t.polls.map (·.key)).Nodup) {r : PollRow} (hr : r ∈ t.polls) :
    r.hasUnseenEdit = false := by
  refine Bool.eq_false_of_not_eq_true fun hunseen => ?_
  exact hnone ⟨r.key, r.editedAt⟩ ⟨r, row?_of_mem hkeys hr, hunseen, rfl⟩

theorem mem_unseenSince_iff_isUnseen (hkeys : (t.polls.map (·.key)).Nodup) {cutoff : Int} :
    edit ∈ t.unseenSince cutoff ↔ t.IsUnseen edit ∧ cutoff ≤ edit.editedAt := by
  rw [mem_unseenSince]
  constructor
  · rintro ⟨r, hr, ⟨hcutoff, hunseen⟩, rfl⟩
    exact ⟨⟨r, row?_of_mem hkeys hr, hunseen, rfl⟩, hcutoff⟩
  · rintro ⟨⟨r, hr, hunseen, hedited⟩, hcutoff⟩
    refine ⟨r, mem_of_row? hr, ⟨hedited ▸ hcutoff, hunseen⟩, ?_⟩
    rw [key_of_row? hr, hedited]

theorem isUnseen_markSeen (seen : List EditStamp) :
    (t.markSeen seen).2.IsUnseen edit ↔
      t.IsUnseen edit ∧ ∀ e ∈ seen, e.key = edit.key → e.editedAt < edit.editedAt := by
  simp only [IsUnseen, row?_markSeen]
  constructor
  · rintro ⟨r', hr', hunseen, hedited⟩
    obtain ⟨r, hr, rfl⟩ := Option.map_eq_some_iff.mp hr'
    have hsame : (r.afterSeen seen).editedAt = r.editedAt := by
      obtain ⟨note, hnote, -⟩ := r.afterSeen_eq seen
      rw [hnote]
    rw [PollRow.hasUnseenEdit_iff, hsame, PollRow.seenBelow_afterSeen, key_of_row? hr] at hunseen
    rw [hsame] at hedited
    exact ⟨⟨r, hr, PollRow.hasUnseenEdit_iff.mpr hunseen.2, hedited⟩, hedited ▸ hunseen.1⟩
  · rintro ⟨⟨r, hr, hunseen, hedited⟩, hseen⟩
    have hsame : (r.afterSeen seen).editedAt = r.editedAt := by
      obtain ⟨note, hnote, -⟩ := r.afterSeen_eq seen
      rw [hnote]
    refine ⟨r.afterSeen seen, by rw [hr]; rfl, ?_, hsame.trans hedited⟩
    rw [PollRow.hasUnseenEdit_iff, hsame, PollRow.seenBelow_afterSeen, key_of_row? hr, hedited]
    exact ⟨hseen, hedited ▸ PollRow.hasUnseenEdit_iff.mp hunseen⟩

theorem isUnseen_markFinal (noted : List PollKey) :
    (t.markFinal noted).2.IsUnseen edit ↔ t.IsUnseen edit := by
  have hsame : ∀ r : PollRow,
      let r' := if edit.key ∈ noted ∧ r.finalRefreshed = 0 then { r with finalRefreshed := 1 } else r
      r'.hasUnseenEdit = r.hasUnseenEdit ∧ r'.editedAt = r.editedAt := by
    intro r
    simp only
    split <;> exact ⟨rfl, rfl⟩
  simp only [IsUnseen, row?_markFinal]
  constructor
  · rintro ⟨r', hr', hunseen, hedited⟩
    obtain ⟨r, hr, rfl⟩ := Option.map_eq_some_iff.mp hr'
    exact ⟨r, hr, (hsame r).1.symm.trans hunseen, (hsame r).2.symm.trans hedited⟩
  · rintro ⟨r, hr, hunseen, hedited⟩
    exact ⟨_, Option.map_eq_some_iff.mpr ⟨r, hr, rfl⟩, (hsame r).1.trans hunseen, (hsame r).2.trans hedited⟩

theorem isUnseen_of_notes {seen : List EditStamp} {noted : List PollKey}
    (h : ((t.markSeen seen).2.markFinal noted).2.IsUnseen edit) : t.IsUnseen edit :=
  ((isUnseen_markSeen seen).mp ((isUnseen_markFinal noted).mp h)).1

/-- Once all unseen edits are acknowledged, none is left. -/
theorem not_isUnseen_of_notes {seen : List EditStamp} {noted : List PollKey}
    (hall : ∀ edit, t.IsUnseen edit → edit ∈ seen) :
    ¬ ((t.markSeen seen).2.markFinal noted).2.IsUnseen edit := by
  intro h
  obtain ⟨hunseen, hlater⟩ := (isUnseen_markSeen seen).mp ((isUnseen_markFinal noted).mp h)
  exact Int.lt_irrefl _ (hlater edit (hall edit hunseen) rfl)

theorem Thins.isUnseen (h : t.Thins t') (hedit : t'.IsUnseen edit) : t.IsUnseen edit := by
  obtain ⟨r, hr, hunseen⟩ := hedit
  rcases h.slice edit.key with hsame | hgone
  · have hrow : t'.row? edit.key = t.row? edit.key := congrArg PollSlice.row hsame
    exact ⟨r, hrow ▸ hr, hunseen⟩
  · have hrow : t'.row? edit.key = none := congrArg PollSlice.row hgone
    cases hrow.symm.trans hr

/-- A change of a poll leaves the other polls alone, and its own edit bears its stamp. -/
theorem Changes.isUnseen (h : t.Changes key stamp t') (hedit : t'.IsUnseen edit) :
    t.IsUnseen edit ∨ edit.editedAt = stamp := by
  obtain ⟨r, hr, hunseen, hedited⟩ := hedit
  by_cases hkey : edit.key = key
  · obtain ⟨changed, hchanged, hstamp, -⟩ := h.row
    rw [hkey] at hr
    cases hr.symm.trans hchanged
    exact .inr (hedited.symm.trans hstamp)
  · have hrow : t'.row? edit.key = t.row? edit.key := congrArg PollSlice.row (h.others _ hkey)
    exact .inl ⟨r, hrow ▸ hr, hunseen, hedited⟩

theorem length_unseenSince (hkeys : (t.polls.map (·.key)).Nodup) {cutoff : Int}
    (hcutoff : ∀ edit, t.IsUnseen edit → cutoff ≤ edit.editedAt) :
    (t.unseenSince cutoff).length = t.polls.countP (·.hasUnseenEdit) := by
  rw [unseenSince, List.length_mergeSort, List.length_map, ← List.countP_eq_length_filter]
  refine List.countP_congr fun r hr => ?_
  rw [Bool.and_eq_true, decide_eq_true_eq]
  refine ⟨And.right, fun hunseen => ⟨?_, hunseen⟩⟩
  exact hcutoff ⟨r.key, r.editedAt⟩ ⟨r, row?_of_mem hkeys hr, hunseen, rfl⟩

theorem length_awaitingFinal (t : Tables) (now : Instant) :
    (t.awaitingFinal now.ceilSeconds).length =
      t.polls.countP fun r => r.finalRefreshed = 0 ∧ now.IsPast r.endAt := by
  rw [awaitingFinal, keysWhere, List.length_mergeSort, List.length_map, ← List.countP_eq_length_filter]
  refine List.countP_congr fun r _ => ?_
  simp only [Bool.and_eq_true, decide_eq_true_eq, PollRow.endedBefore, Instant.isPast_iff_lt_ceilSeconds,
    PollRow.endAt]

/-- Acknowledgements have nothing to do with the end of a poll. -/
theorem awaitingFinal_markSeen (t : Tables) (seen : List EditStamp) (cutoff : Int) :
    (t.markSeen seen).2.awaitingFinal cutoff = t.awaitingFinal cutoff := by
  refine countChanges_keeps (P := fun u => u.awaitingFinal cutoff = t.awaitingFinal cutoff)
    (fun u e h => ?_) seen rfl
  rw [modifyRowIf_snd]
  split
  · have hrow : ∀ r : PollRow, ∀ awaits : PollRow → Bool,
        (∀ note, awaits { r with editSeenAt := note } = awaits r) →
        awaits (if r.key = e.key then r.withSeen e.editedAt else r) = awaits r := by
      intro r awaits hnote
      obtain ⟨note, heq, -⟩ := r.withSeen_eq e.editedAt
      rw [heq, apply_ite awaits, hnote, ite_self]
    have hkey : ∀ r : PollRow, (if r.key = e.key then r.withSeen e.editedAt else r).key = r.key := by
      intro r
      rw [apply_ite PollRow.key, keepsKey_withSeen e.editedAt r, ite_self]
    refine Eq.trans ?_ h
    simp only [awaitingFinal, keysWhere, modifyRow, List.filter_map, List.map_map, Function.comp_def, hkey]
    congr 3
    funext r
    exact hrow r (fun r => r.finalRefreshed = 0 && r.endedBefore cutoff) fun _ => rfl
  · exact h

/-- Once the final refreshes of the listed polls are noted, none is awaited. -/
theorem awaitingFinal_markFinal (hkeys : (t.polls.map (·.key)).Nodup) (now : Instant) :
    (t.markFinal (t.awaitingFinal now.ceilSeconds)).2.awaitingFinal now.ceilSeconds = [] := by
  have hkeys' : ((t.markFinal (t.awaitingFinal now.ceilSeconds)).2.polls.map (·.key)).Nodup := by
    rwa [(sameContent_markFinal t _).keys]
  refine List.eq_nil_iff_forall_not_mem.mpr fun key hkey => ?_
  obtain ⟨r', hr', hopen, hpast⟩ := (mem_awaitingFinal hkeys').mp hkey
  rw [row?_markFinal] at hr'
  obtain ⟨r, hr, rfl⟩ := Option.map_eq_some_iff.mp hr'
  split at hopen
  · cases hopen
  · next hnoted =>
    rw [if_neg hnoted] at hpast
    exact hnoted ⟨(mem_awaitingFinal hkeys).mpr ⟨r, hr, hopen, hpast⟩, hopen⟩

end Tables

def StoreEvent.mutatedAt? (e : StoreEvent) (reply : StoreReply) : Option Instant :=
  match e, e.change? reply with
  | .request now _, some _ => some now
  | _, _ => none

private theorem StoreEvent.mutatedAt?_eq_some {e : StoreEvent} {reply : StoreReply} {key : PollKey}
    {stamp : Int}
    (h : e.change? reply = some (key, stamp)) : ∃ now, e.mutatedAt? reply = some now ∧ stamp = now.millis := by
  obtain ⟨now, r, rfl, hstamp⟩ := clock_of_change? h
  refine ⟨now, ?_, hstamp⟩
  simp only [mutatedAt?, h]

/-- An event that no client causes writes notes, and keeps or gives back refreshes. -/
theorem DirectStore.notes_react (s : DirectStore) {e : StoreEvent} (he : e.isClients = false) :
    ∃ seen noted, (s.react e).2.tables.polls = ((s.tables.markSeen seen).2.markFinal noted).2.polls := by
  cases e with
  | request now r =>
    cases r with
    | markSeen edits => exact ⟨edits.map (·.toStamp), [], rfl⟩
    | markFinal keys => exact ⟨[], keys, rfl⟩
    | persist keys =>
      obtain ⟨added, hsaved, -⟩ := Tables.savePending_eq keys s.tables
      have hpolls : (s.tables.savePending keys).2.polls = s.tables.polls :=
        (congrArg Tables.polls hsaved).trans rfl
      exact ⟨[], [], hpolls⟩
    | takePersisted guild => exact ⟨[], [], rfl⟩
    | ofGuild | deleteExpired | endedUnrefreshed | editedSince | clearCaches => cases he
  | acquire | acquireUnless | wait | giveUp | release | evict => cases he

/-- An edit that is unseen after an event was unseen before, or it is the one that the event made. -/
theorem DirectStore.isUnseen_react (s : DirectStore) {e : StoreEvent} {edit : EditStamp}
    (h : (s.react e).2.tables.IsUnseen edit) :
    s.tables.IsUnseen edit ∨
      ∃ now, e.mutatedAt? (s.react e).1 = some now ∧ edit.editedAt = now.millis := by
  cases he : e.isClients with
  | true =>
    have hchanges := s.changes_react he
    cases hchange : e.change? (s.react e).1 with
    | none =>
      rw [hchange] at hchanges
      exact .inl (hchanges.isUnseen h)
    | some change =>
      rw [hchange] at hchanges
      obtain ⟨now, hnow, hstamp⟩ := StoreEvent.mutatedAt?_eq_some hchange
      rcases hchanges.isUnseen h with hold | hnew
      · exact .inl hold
      · exact .inr ⟨now, hnow, hnew.trans hstamp⟩
  | false =>
    obtain ⟨seen, noted, hpolls⟩ := s.notes_react he
    exact .inl (Tables.isUnseen_of_notes ((Tables.isUnseen_congr hpolls).mp h))

end PollKeeper
