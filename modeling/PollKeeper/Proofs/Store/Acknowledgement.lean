import PollKeeper.Proofs.Poll.Validity
import PollKeeper.Proofs.Storage.Notes
import PollKeeper.Proofs.Store.Isolation

/-!
# Acknowledged edits

An acknowledgement names the stamp of the edit that was read, and a poll is reported as unseen as long as
all of them lie before the stamp of its last change. If the stamps of a poll increase, the acknowledgement
of an edit hides no later change. A change with the stamp of an edit that was read, or with an older one,
is hidden with that edit.
-/

namespace PollKeeper

open Time StoreAction

def stampsOf (key : PollKey) (edits : List PollEdit) : List Int :=
  (edits.filter (·.key = key)).map (·.editedAt.millis)

def StoreReply.edits : StoreReply → List PollEdit
  | .answer (.ok (.edit e)) => [e]
  | .answer (.ok (.edits edits)) => edits
  | _ => []

def StoreEvent.acknowledged : StoreEvent → List PollEdit
  | .request _ (.markSeen edits) => edits
  | _ => []

def StoreEvent.inserted? : StoreEvent → StoreReply → Option PollKey
  | .request _ (.ofGuild h (.insert id _)), .answer (.ok _) => some ⟨h.guild, id⟩
  | _, _ => none

/-- What became of the edits of one poll. -/
structure EditRecord where
  changes : List Int
  read : List Int
  /-- The stamps that were acknowledged since the poll was inserted. -/
  acknowledged : List Int

namespace EditRecord

def blank : EditRecord := ⟨[], [], []⟩

def noteChange (h : EditRecord) (key : PollKey) : Option (PollKey × Int) → EditRecord
  | some (changed, stamp) => if changed = key then { h with changes := stamp :: h.changes } else h
  | none => h

def noteInsert (h : EditRecord) (key : PollKey) : Option PollKey → EditRecord
  | some inserted => if inserted = key then { h with acknowledged := [] } else h
  | none => h

def noteEdits (h : EditRecord) (key : PollKey) (read acknowledged : List PollEdit) : EditRecord :=
  { h with
    read := stampsOf key read ++ h.read
    acknowledged := stampsOf key acknowledged ++ h.acknowledged }

def note (h : EditRecord) (key : PollKey) (e : StoreEvent) (reply : StoreReply) : EditRecord :=
  ((h.noteChange key (e.change? reply)).noteInsert key (e.inserted? reply)).noteEdits key
    reply.edits e.acknowledged

theorem changes_note (h : EditRecord) (key : PollKey) (e : StoreEvent) (reply : StoreReply) :
    (h.note key e reply).changes = (h.noteChange key (e.change? reply)).changes := by
  have hinsert : ∀ (h : EditRecord) inserted, (h.noteInsert key inserted).changes = h.changes := by
    intro h inserted
    cases inserted with
    | none => rfl
    | some inserted => exact (apply_ite EditRecord.changes _ _ _).trans (ite_self _)
  exact hinsert _ _

theorem note_error (h : EditRecord) (key : PollKey) (now : Instant) (handle : Handle)
    (r : GuildRequest) (e : StoreError) :
    h.note key (.request now (.ofGuild handle r)) (.answer (.error e)) = h := by
  cases r <;> rfl

end EditRecord

/-- The record of a poll after some events. -/
def Store.record (key : PollKey) (s : Store) (h : EditRecord) : List StoreEvent → EditRecord
  | [] => h
  | e :: rest => (s.react e).2.record key (h.note key e (s.react e).1) rest

namespace Tables

variable {t t' : Tables} {key : PollKey} {h : EditRecord}

structure Tracks (t : Tables) (key : PollKey) (h : EditRecord) : Prop where
  latest : ∀ r, t.row? key = some r → h.changes.head? = some r.editedAt
  seen : ∀ r, t.row? key = some r → ∀ bound, r.SeenBelow bound ↔ ∀ a ∈ h.acknowledged, a < bound
  read : ∀ stamp ∈ h.read, stamp ∈ h.changes

private theorem tracks_blank (key : PollKey) : empty.Tracks key .blank where
  latest _ hr := by cases hr
  seen _ hr := by cases hr
  read _ hstamp := by cases hstamp

/-- A poll that is stored was stored before, with the same stamp and the same acknowledgement. -/
theorem Tracks.keep (ht : t.Tracks key h)
    (hrow : ∀ r, t'.row? key = some r → ∃ old, t.row? key = some old ∧
      r.editedAt = old.editedAt ∧ r.editSeenAt = old.editSeenAt) : t'.Tracks key h := by
  refine ⟨fun r hr => ?_, fun r hr bound => ?_, ht.read⟩
  · obtain ⟨old, hold, hedited, -⟩ := hrow r hr
    exact hedited ▸ ht.latest old hold
  · obtain ⟨old, hold, -, hseen⟩ := hrow r hr
    rw [← ht.seen old hold bound, PollRow.SeenBelow, hseen, PollRow.SeenBelow]

theorem Tracks.thins (ht : t.Tracks key h) (hthins : t.Thins t') : t'.Tracks key h := by
  refine ht.keep fun r hr => ?_
  rcases hthins.slice key with hsame | hgone
  · have hrow : t'.row? key = t.row? key := congrArg PollSlice.row hsame
    exact ⟨r, hrow ▸ hr, rfl, rfl⟩
  · have hrow : t'.row? key = none := congrArg PollSlice.row hgone
    rw [hrow] at hr
    cases hr

/-- The stamps that are read are those of stored polls. -/
theorem Tracks.noteRead (ht : t.Tracks key h) {edits : List PollEdit}
    (hedits : ∀ e ∈ edits, ∃ r, t.row? e.key = some r ∧ e.editedAt.millis = r.editedAt) :
    t.Tracks key (h.noteEdits key edits []) := by
  refine ⟨ht.latest, ht.seen, fun stamp hstamp => ?_⟩
  rcases List.mem_append.mp hstamp with hnew | hold
  · obtain ⟨e, he, rfl⟩ := List.mem_map.mp hnew
    obtain ⟨hmem, hkey⟩ := List.mem_filter.mp he
    obtain ⟨r, hr, hmillis⟩ := hedits e hmem
    obtain rfl := of_decide_eq_true hkey
    exact List.mem_of_mem_head? (hmillis ▸ ht.latest r hr)
  · exact ht.read stamp hold

private theorem Tracks.acknowledge (ht : t.Tracks key h) (edits : List PollEdit) :
    (t.markSeen (edits.map (·.toStamp))).2.Tracks key (h.noteEdits key [] edits) := by
  have hrow : ∀ r, (t.markSeen (edits.map (·.toStamp))).2.row? key = some r →
      ∃ old, t.row? key = some old ∧ old.afterSeen (edits.map (·.toStamp)) = r := by
    intro r hr
    rw [row?_markSeen] at hr
    exact Option.map_eq_some_iff.mp hr
  refine ⟨fun r hr => ?_, fun r hr bound => ?_, ht.read⟩
  · obtain ⟨old, hold, rfl⟩ := hrow r hr
    obtain ⟨seen, heq, -⟩ := old.afterSeen_eq (edits.map (·.toStamp))
    exact heq ▸ ht.latest old hold
  · obtain ⟨old, hold, rfl⟩ := hrow r hr
    obtain rfl := key_of_row? hold
    rw [PollRow.seenBelow_afterSeen, ht.seen old hold bound]
    have hstamps : (∀ e ∈ edits.map (·.toStamp), e.key = old.key → e.editedAt < bound) ↔
        ∀ a ∈ stampsOf old.key edits, a < bound := by
      simp only [stampsOf, List.forall_mem_map, List.mem_filter, decide_eq_true_eq, and_imp,
        PollEdit.toStamp]
    rw [hstamps, ← List.forall_mem_append]
    rfl

private theorem Tracks.create (ht : t.Tracks key h) {changed : PollKey} {p : Poll} {now : Instant}
    (hcreate : t.create changed p now = .ok t') :
    t'.Tracks key ((h.noteChange key (some (changed, now.millis))).noteInsert key (some changed)) := by
  by_cases hkey : changed = key
  · subst hkey
    have hnote : (h.noteChange changed (some (changed, now.millis))).noteInsert changed
        (some changed) = ⟨now.millis :: h.changes, h.read, []⟩ := by
      simp [EditRecord.noteChange, EditRecord.noteInsert]
    rw [hnote]
    obtain ⟨hnew, rfl⟩ := insertPoll_eq_ok (create_eq_ok hcreate).2
    have hrow := (row?_withPoll t (p.under changed) now.millis hnew).trans (if_pos rfl)
    refine ⟨fun r hr => ?_, fun r hr bound => ?_, fun stamp hstamp => ?_⟩
    · cases hrow.symm.trans hr
      rfl
    · cases hrow.symm.trans hr
      exact ⟨nofun, nofun⟩
    · exact List.mem_cons_of_mem _ (ht.read stamp hstamp)
  · have hnote : (h.noteChange key (some (changed, now.millis))).noteInsert key (some changed) = h := by
      simp [EditRecord.noteChange, EditRecord.noteInsert, hkey]
    rw [hnote]
    refine ht.keep fun r hr => ⟨r, ?_, rfl, rfl⟩
    have hslice := (changes_create hcreate).others key (Ne.symm hkey)
    exact (congrArg PollSlice.row hslice).symm.trans hr

/-- A poll that was changed keeps its acknowledgement. -/
theorem Tracks.change (ht : t.Tracks key h) {changed : PollKey} {now : Instant}
    (hchanges : t.Changes changed now.millis t')
    (hseen : ∀ r, t'.row? changed = some r →
      ∃ old, t.row? changed = some old ∧ r.editSeenAt = old.editSeenAt) :
    t'.Tracks key (h.noteChange key (some (changed, now.millis))) := by
  by_cases hkey : changed = key
  · subst hkey
    have hnote : h.noteChange changed (some (changed, now.millis)) =
        ⟨now.millis :: h.changes, h.read, h.acknowledged⟩ := by
      simp [EditRecord.noteChange]
    rw [hnote]
    obtain ⟨row, hrow, hedited, -⟩ := hchanges.row
    refine ⟨fun r hr => ?_, fun r hr bound => ?_, fun stamp hstamp => ?_⟩
    · cases hrow.symm.trans hr
      exact congrArg some hedited.symm
    · obtain ⟨old, hold, hsame⟩ := hseen r hr
      rw [← ht.seen old hold bound, PollRow.SeenBelow, hsame, PollRow.SeenBelow]
    · exact List.mem_cons_of_mem _ (ht.read stamp hstamp)
  · have hnote : h.noteChange key (some (changed, now.millis)) = h := by
      simp [EditRecord.noteChange, hkey]
    rw [hnote]
    refine ht.keep fun r hr => ⟨r, ?_, rfl, rfl⟩
    exact (congrArg PollSlice.row (hchanges.others key (Ne.symm hkey))).symm.trans hr

private theorem Tracks.revise (ht : t.Tracks key h) {changed : PollKey} {p : Poll} {now : Instant}
    (hrevise : t.revise changed p now = .ok t') :
    t'.Tracks key (h.noteChange key (some (changed, now.millis))) := by
  refine ht.change (changes_revise hrevise) fun r hr => ?_
  obtain ⟨-, rfl⟩ := modifyRow?_eq_ok (revise_eq_ok hrevise).2
  rw [row?_modifyRow (keepsKey_withDetails _ _ _ _), if_pos rfl] at hr
  obtain ⟨old, hold, rfl⟩ := Option.map_eq_some_iff.mp hr
  exact ⟨old, hold, rfl⟩

private theorem Tracks.castAnswers (ht : t.Tracks key h) {changed : PollKey} {voter : UserId}
    {chosen : IdSet} {now : Instant} (hcast : t.castAnswers changed voter chosen now = .ok t') :
    t'.Tracks key (h.noteChange key (some (changed, now.millis))) := by
  refine ht.change (changes_castAnswers hcast) fun r hr => ?_
  obtain ⟨q, -, -, hreplaced⟩ := castAnswers_eq_ok hcast
  obtain ⟨added, rfl, -⟩ := replaceAnswers_eq_ok hreplaced
  have hrow := row?_modifyRow (f := fun r => { r with editedAt := now.millis }) (fun _ => rfl) t changed
    changed
  obtain ⟨old, hold, rfl⟩ := Option.map_eq_some_iff.mp ((hrow.trans (if_pos rfl)).symm.trans hr)
  exact ⟨old, hold, rfl⟩

private theorem Tracks.serve (ht : t.Tracks key h) {handle : Handle} {now : Instant} {r : GuildRequest}
    {a : Answer} (hr : t.serve handle.guild now r = .ok (a, t')) :
    t'.Tracks key (h.note key (.request now (.ofGuild handle r)) (.answer (.ok a))) := by
  cases r with
  | settings | poll id =>
    obtain ⟨x, -, hx⟩ := bind_eq_ok hr
    cases hx
    exact ht
  | setSettings s =>
    cases hr
    exact ht.thins (thins_putSettings t _)
  | insert id p =>
    obtain ⟨x, hx, he⟩ := bind_eq_ok hr
    cases he
    exact ht.create hx
  | update id p =>
    obtain ⟨x, hx, he⟩ := bind_eq_ok hr
    cases he
    exact ht.revise hx
  | edit id e =>
    obtain ⟨⟨p, x⟩, hx, he⟩ := bind_eq_ok hr
    cases he
    obtain ⟨q, -, -, hrevise⟩ := amend_eq_ok hx
    exact ht.revise hrevise
  | cast id voter chosen =>
    obtain ⟨x, hx, he⟩ := bind_eq_ok hr
    cases he
    exact ht.castAnswers hx
  | pollIds =>
    cases hr
    exact ht
  | lastEdit id =>
    obtain ⟨e, he, hx⟩ := bind_eq_ok hr
    cases hx
    refine ht.noteRead fun e' he' => ?_
    obtain rfl := List.mem_singleton.mp he'
    obtain ⟨row, hrow, hstamp⟩ := latestEdit_eq_ok he
    obtain ⟨hkey, hmillis⟩ := EditStamp.mk.inj hstamp
    exact ⟨row, hkey ▸ hrow, hmillis⟩

end Tables

private theorem DirectStore.tracks_react (s : DirectStore) (hkeys : s.tables.PrimaryKeys) {key : PollKey}
    {h : EditRecord} (ht : s.tables.Tracks key h) (e : StoreEvent) :
    (s.react e).2.tables.Tracks key (h.note key e (s.react e).1) := by
  cases e with
  | request now r =>
    cases r with
    | ofGuild handle r =>
      by_cases hheld : s.locks.isHeld handle
      · have hserved : s.answer now (.ofGuild handle r) = s.served (s.tables.serve handle.guild now r) :=
          if_pos hheld
        simp only [react, hserved]
        cases hr : s.tables.serve handle.guild now r with
        | error e => exact (h.note_error key now handle r e).symm ▸ ht
        | ok x => exact ht.serve hr
      · have hrefused : s.answer now (.ofGuild handle r) =
            (.error (.fatal (.releasedHandle handle.guild)), s) := if_neg hheld
        simp only [react, hrefused, EditRecord.note_error]
        exact ht
    | deleteExpired before => exact ht.thins (s.thins_deleteExpired before)
    | editedSince cutoff =>
      simp only [react, answer]
      cases hread : (s.tables.unseenSince cutoff.millis).mapM PollEdit.ofStamp with
      | error e => exact ht
      | ok edits =>
        refine ht.noteRead fun e he => ?_
        have hstamp : e.toStamp ∈ s.tables.unseenSince cutoff.millis :=
          mapM_ofStamp_eq_ok hread ▸ List.mem_map_of_mem he
        obtain ⟨r, hr, -, heq⟩ := Tables.mem_unseenSince.mp hstamp
        obtain ⟨hkey, hmillis⟩ := EditStamp.mk.inj heq
        exact ⟨r, hkey ▸ Tables.row?_of_mem hkeys.polls hr, hmillis.symm⟩
    | markFinal keys =>
      refine ht.keep fun r hr => ?_
      obtain ⟨old, hold, rfl⟩ := Option.map_eq_some_iff.mp
        ((Tables.row?_markFinal keys s.tables key).symm.trans hr)
      refine ⟨old, hold, ?_⟩
      split <;> exact ⟨rfl, rfl⟩
    | markSeen edits => exact ht.acknowledge edits
    | persist keys =>
      obtain ⟨added, hsaved, -⟩ := Tables.savePending_eq keys s.tables
      have htables : (s.react (.request now (.persist keys))).2.tables =
          { s.tables with pending := s.tables.pending ++ added } := hsaved
      rw [htables]
      exact ht.keep fun r hr => ⟨r, hr, rfl, rfl⟩
    | takePersisted guild => exact ht.keep fun r hr => ⟨r, hr, rfl, rfl⟩
    | endedUnrefreshed _ | clearCaches => exact ht
  | acquire _ | acquireUnless _ _ | wait _ | giveUp _ | release _ | evict _ _ _ => exact ht

theorem StoreEvent.clock_of_change? {e : StoreEvent} {reply : StoreReply} {key : PollKey} {stamp : Int}
    (h : e.change? reply = some (key, stamp)) : ∃ now r, e = .request now r ∧ stamp = now.millis := by
  simp only [change?] at h
  split at h
  · obtain ⟨id, -, hid⟩ := Option.map_eq_some_iff.mp h
    cases hid
    exact ⟨_, _, rfl, rfl⟩
  · cases h

theorem Time.Instant.isSome_ofMillis?_millis {t : Instant} (h : t ≤ .latest) :
    (ofMillis? t.millis).isSome = true := by
  have hlatest : ¬ (maxSeconds < t.seconds ∨ maxSeconds = t.seconds ∧ 999999999 < t.nanos) := h
  have hnanos := t.nanos_lt
  have hmin := t.min_le
  have hmax := t.le_max
  have hrange : minSeconds ≤ t.millis * 1000000 / 1000000000 ∧
      t.millis * 1000000 / 1000000000 ≤ maxSeconds := by
    simp only [millis, total, minSeconds, maxSeconds] at *
    omega
  rw [ofMillis?, ofTotal?, dif_pos hrange, Option.isSome_some]

theorem Time.Instant.earliest_millis_le (t : Instant) : earliest.millis ≤ t.millis := by
  have hmin := t.min_le
  simp only [millis, total, earliest, minSeconds] at *
  omega

theorem mapM_ofStamp_of_inRange {stamps : List EditStamp}
    (h : ∀ s ∈ stamps, (Instant.ofMillis? s.editedAt).isSome = true) :
    ∃ edits, stamps.mapM PollEdit.ofStamp = .ok edits := by
  induction stamps with
  | nil => exact ⟨[], rfl⟩
  | cons stamp rest ih =>
    obtain ⟨hfirst, hrest⟩ := List.forall_mem_cons.mp h
    obtain ⟨t, ht⟩ := Option.isSome_iff_exists.mp hfirst
    obtain ⟨edits, hedits⟩ := ih hrest
    refine ⟨⟨stamp.key, t⟩ :: edits, ?_⟩
    rw [List.mapM_cons, hedits, PollEdit.ofStamp, ht]
    rfl

namespace Store

variable {s : Store} {key : PollKey} {h : EditRecord} {events : List StoreEvent}

private theorem tracks_record (hs : s.Coherent) (hkeys : s.database.tables.PrimaryKeys)
    (ht : s.database.tables.Tracks key h) (events : List StoreEvent) :
    (s.after events).database.tables.Tracks key (s.record key h events) := by
  induction events generalizing s h with
  | nil => exact ht
  | cons e rest ih =>
    obtain ⟨hcoherent, hreply, htables⟩ := leaves_react hs e
    refine ih hcoherent ?_ ?_
    · rw [htables]
      exact s.direct.primaryKeys_react e hkeys
    · rw [htables, hreply]
      exact s.direct.tracks_react hkeys ht e

theorem tracks_after (key : PollKey) (events : List StoreEvent) :
    (fresh.after events).database.tables.Tracks key (fresh.record key .blank events) :=
  tracks_record coherent_fresh Tables.primaryKeys_empty (Tables.tracks_blank key) events

theorem record_append (s : Store) (h : EditRecord) (before after : List StoreEvent) :
    s.record key h (before ++ after) = (s.after before).record key (s.record key h before) after := by
  induction before generalizing s h with
  | nil => rfl
  | cons e rest ih => exact ih _ _

private theorem changes_suffix (s : Store) (h : EditRecord) (events : List StoreEvent) :
    h.changes <:+ (s.record key h events).changes := by
  induction events generalizing s h with
  | nil => exact List.suffix_rfl
  | cons e rest ih =>
    refine .trans ?_ (ih _ _)
    rw [EditRecord.changes_note]
    cases e.change? (s.react e).1 with
    | none => exact List.suffix_rfl
    | some change =>
      simp only [EditRecord.noteChange]
      split
      · exact List.suffix_cons _ _
      · exact List.suffix_rfl

private theorem clock_of_mem_changes {stamp : Int} (hstamp : stamp ∈ (s.record key h events).changes) :
    stamp ∈ h.changes ∨ ∃ now r, .request now r ∈ events ∧ stamp = now.millis := by
  induction events generalizing s h with
  | nil => exact .inl hstamp
  | cons e rest ih =>
    rcases ih hstamp with hnoted | ⟨now, r, hr, hnow⟩
    · rw [EditRecord.changes_note] at hnoted
      cases hchange : e.change? (s.react e).1 with
      | none =>
        rw [hchange] at hnoted
        exact .inl hnoted
      | some change =>
        rw [hchange] at hnoted
        simp only [EditRecord.noteChange] at hnoted
        split at hnoted
        · rcases List.mem_cons.mp hnoted with rfl | hold
          · obtain ⟨now, r, rfl, hnow⟩ := StoreEvent.clock_of_change? hchange
            exact .inr ⟨now, r, List.mem_cons_self, hnow⟩
          · exact .inl hold
        · exact .inl hnoted
    · exact .inr ⟨now, r, List.mem_cons_of_mem _ hr, hnow⟩

theorem clock_of_mem_polls {r : PollRow} (hr : r ∈ (fresh.after events).database.tables.polls) :
    ∃ now req, .request now req ∈ events ∧ r.editedAt = now.millis := by
  have hrow := Tables.row?_of_mem (primaryKeys_after events).polls hr
  have hlatest := (tracks_after r.key events).latest r hrow
  exact (clock_of_mem_changes (List.mem_of_mem_head? hlatest)).resolve_left nofun

/-- Asked for all unseen edits, a store reports one of a poll. -/
def Reports (s : Store) (key : PollKey) : Prop :=
  ∃ edits, ((editedSince .earliest).outcome s).1 = .ok edits ∧ key ∈ edits.map (·.key)

theorem reports_iff (hclock : ∀ now req, StoreEvent.request now req ∈ events → now ≤ .latest) :
    (fresh.after events).Reports key ↔
      ∃ r, (fresh.after events).database.tables.row? key = some r ∧ r.hasUnseenEdit = true := by
  have hkeys := (primaryKeys_after events).polls
  have hanswer := (serves_editedSince .earliest).leaves_reading (coherent_after events)
  have hmillis : ∀ r ∈ (fresh.after events).database.tables.polls,
      (Instant.ofMillis? r.editedAt).isSome = true ∧ Instant.earliest.millis ≤ r.editedAt := by
    intro r hr
    obtain ⟨now, req, hreq, hnow⟩ := clock_of_mem_polls hr
    rw [hnow]
    exact ⟨Instant.isSome_ofMillis?_millis (hclock now req hreq), now.earliest_millis_le⟩
  generalize (fresh.after events).database.tables = t at hkeys hanswer hmillis
  have hinRange : ∀ stamp ∈ t.unseenSince Instant.earliest.millis,
      (Instant.ofMillis? stamp.editedAt).isSome = true := by
    intro stamp hstamp
    obtain ⟨r, hr, -, rfl⟩ := Tables.mem_unseenSince.mp hstamp
    exact (hmillis r hr).1
  obtain ⟨edits, hedits⟩ := mapM_ofStamp_of_inRange hinRange
  have hreported : (fresh.after events).Reports key ↔
      ∃ stamp ∈ t.unseenSince Instant.earliest.millis, stamp.key = key := by
    rw [Reports, hanswer.result, hedits, ← mapM_ofStamp_eq_ok hedits]
    simp [PollEdit.toStamp]
  rw [hreported]
  constructor
  · rintro ⟨stamp, hstamp, rfl⟩
    obtain ⟨r, hr, ⟨-, hunseen⟩, rfl⟩ := Tables.mem_unseenSince.mp hstamp
    exact ⟨r, Tables.row?_of_mem hkeys hr, hunseen⟩
  · rintro ⟨r, hr, hunseen⟩
    have hmem := Tables.mem_of_row? hr
    exact ⟨_, Tables.mem_unseenSince.mpr ⟨r, hmem, ⟨(hmillis r hmem).2, hunseen⟩, rfl⟩,
      Tables.key_of_row? hr⟩

/-- A poll was changed after all its edits were read that are acknowledged. -/
def ChangedSinceRead (key : PollKey) (events : List StoreEvent) : Prop :=
  ∃ before e rest stamp, events = before ++ e :: rest ∧
    e.change? ((fresh.after before).react e).1 = some (key, stamp) ∧
    ∀ a ∈ (fresh.record key .blank events).acknowledged, a ∈ (fresh.record key .blank before).read

/-- The edits that were read before a change are older than the last change, if stamps increase. -/
theorem ChangedSinceRead.lt_latest (hchanged : ChangedSinceRead key events)
    (hincreasing : (fresh.record key .blank events).changes.Pairwise (· > ·)) {a last : Int}
    (ha : a ∈ (fresh.record key .blank events).acknowledged)
    (hlast : last ∈ (fresh.record key .blank events).changes.head?) : a < last := by
  obtain ⟨before, e, rest, stamp, rfl, hchange, hread⟩ := hchanged
  have hold := (tracks_after key before).read a (hread a ha)
  have hsuffix : stamp :: (fresh.record key .blank before).changes <:+
      (fresh.record key .blank (before ++ e :: rest)).changes := by
    have hnoted : ((fresh.record key .blank before).note key e
        ((fresh.after before).react e).1).changes =
          stamp :: (fresh.record key .blank before).changes := by
      rw [EditRecord.changes_note, hchange]
      exact congrArg EditRecord.changes (if_pos rfl)
    rw [record_append, ← hnoted]
    exact changes_suffix _ _ rest
  obtain ⟨newer, heq⟩ := hsuffix
  rw [← heq] at hincreasing hlast
  obtain ⟨-, holder, hnewer⟩ := List.pairwise_append.mp hincreasing
  -- The last change is this one, or one that came after it.
  cases newer with
  | nil =>
    cases hlast
    exact List.rel_of_pairwise_cons holder hold
  | cons first others =>
    cases hlast
    exact hnewer last List.mem_cons_self a (List.mem_cons_of_mem _ hold)

/-- A stored poll is reported just if every acknowledgement of it lies before its last change. If its
stamps increase, it is reported whenever it was changed after the acknowledged edits were read. -/
theorem reports_after (hclock : ∀ now req, StoreEvent.request now req ∈ events → now ≤ .latest)
    (hstored : ((fresh.after events).database.tables.row? key).isSome) :
    ((fresh.after events).Reports key ↔ ∀ a ∈ (fresh.record key .blank events).acknowledged,
      ∀ last ∈ (fresh.record key .blank events).changes.head?, a < last) ∧
    ((fresh.record key .blank events).changes.Pairwise (· > ·) → ChangedSinceRead key events →
      (fresh.after events).Reports key) := by
  obtain ⟨r, hr⟩ := Option.isSome_iff_exists.mp hstored
  have htracks := tracks_after key events
  have hreports : (fresh.after events).Reports key ↔
      ∀ a ∈ (fresh.record key .blank events).acknowledged,
        ∀ last ∈ (fresh.record key .blank events).changes.head?, a < last := by
    rw [reports_iff hclock, hr]
    simp [PollRow.hasUnseenEdit_iff, htracks.latest r hr, htracks.seen r hr]
  exact ⟨hreports, fun hincreasing hchanged =>
    hreports.mpr fun _ ha _ hlast => hchanged.lt_latest hincreasing ha hlast⟩

def insertedAndRead (read : Instant) : List StoreEvent :=
  [.acquire 1, .request read (.ofGuild ⟨1, 0⟩ (.insert 7 .lunch)),
    .request read (.ofGuild ⟨1, 0⟩ (.lastEdit 7))]

def renamedOnceRead (read renamed : Instant) : List StoreEvent :=
  insertedAndRead read ++
    [.request renamed (.ofGuild ⟨1, 0⟩ (.update 7 { Poll.lunch with title := "Dinner" })),
      .request renamed (.markSeen [⟨⟨1, 7⟩, read⟩])]

/-- A millisecond after the edit that was read, the new title is still reported. -/
theorem reports_after_of_later :
    let run := renamedOnceRead .earliest (.plus .earliest (.ofMillis 1))
    (∀ now req, StoreEvent.request now req ∈ run → now ≤ .latest) ∧
      ((fresh.after run).database.tables.row? ⟨1, 7⟩).isSome ∧
      (fresh.record ⟨1, 7⟩ .blank run).changes.Pairwise (· > ·) ∧ ChangedSinceRead ⟨1, 7⟩ run ∧
      (fresh.after run).Reports ⟨1, 7⟩ := by
  intro run
  have hclock : ∀ now req, StoreEvent.request now req ∈ run → now ≤ .latest := by
    have htimes : ∀ now ∈ [Instant.earliest, .plus .earliest (.ofMillis 1)], now ≤ .latest := by
      decide +kernel
    intro now req hreq
    refine htimes now ?_
    simp only [run, renamedOnceRead, insertedAndRead, List.mem_append, List.mem_cons,
      StoreEvent.request.injEq, reduceCtorEq, List.not_mem_nil] at hreq ⊢
    tauto
  have hstored : ((fresh.after run).database.tables.row? ⟨1, 7⟩).isSome := by decide +kernel
  have hincreasing : (fresh.record ⟨1, 7⟩ .blank run).changes.Pairwise (· > ·) := by
    decide +kernel
  have hchanged : ChangedSinceRead ⟨1, 7⟩ run :=
    ⟨insertedAndRead .earliest, _, _, (Instant.plus .earliest (.ofMillis 1)).millis, rfl,
      by decide +kernel, by decide +kernel⟩
  exact ⟨hclock, hstored, hincreasing, hchanged, (reports_after hclock hstored).2 hincreasing hchanged⟩

/-- A stored poll was changed since the acknowledged edits were read, and yet it is not reported. -/
def HidesChange (key : PollKey) (events : List StoreEvent) : Prop :=
  ChangedSinceRead key events ∧ ((fresh.after events).database.tables.row? key).isSome ∧
    ¬ (fresh.after events).Reports key

private theorem not_reports_of_empty (h : ((editedSince .earliest).outcome s).1.toOption = some []) :
    ¬ s.Reports key := by
  rintro ⟨edits, hedits, hkey⟩
  rw [hedits] at h
  cases h
  cases hkey

/-- A change within the millisecond of the edit that was read is hidden with that edit, and so is one
after the clock was set back. -/
theorem later_edit_hidden :
    HidesChange ⟨1, 7⟩ (renamedOnceRead .earliest (.plus .earliest ⟨999999⟩)) ∧
      HidesChange ⟨1, 7⟩ (renamedOnceRead (.plus .earliest (.ofMillis 1)) .earliest) := by
  constructor
  · exact ⟨⟨insertedAndRead .earliest, _, _, (Instant.plus .earliest ⟨999999⟩).millis, rfl,
      by decide +kernel, by decide +kernel⟩, by decide +kernel, not_reports_of_empty (by decide +kernel)⟩
  · exact ⟨⟨insertedAndRead (.plus .earliest (.ofMillis 1)), _, _, Instant.earliest.millis, rfl,
      by decide +kernel, by decide +kernel⟩, by decide +kernel, not_reports_of_empty (by decide +kernel)⟩

end Store
end PollKeeper
