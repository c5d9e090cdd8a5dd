import PollKeeper.Proofs.Refresh.Interleaving
import PollKeeper.Proofs.Storage.Slice
import PollKeeper.Proofs.Store.Outcome

/-!
# What clients change

An event that a client causes changes one poll and gives it a new stamp, or it changes no poll and at
most takes some away.
-/

namespace PollKeeper

open Time

namespace Tables

variable {t t' u : Tables} {key : PollKey} {stamp : Int}

/-- One poll was changed at a stamp, which nobody has acknowledged. -/
structure Changes (t : Tables) (key : PollKey) (stamp : Int) (t' : Tables) : Prop where
  others : ∀ other ≠ key, t'.slice other = t.slice other
  row : ∃ r, t'.row? key = some r ∧ r.editedAt = stamp ∧
    (r.editSeenAt = none ∨ ∃ old, t.row? key = some old ∧ r.editSeenAt = old.editSeenAt)
  distinct : (t.polls.map (·.key)).Nodup → (t'.polls.map (·.key)).Nodup

structure Thins (t t' : Tables) : Prop where
  slice : ∀ key, t'.slice key = t.slice key ∨ t'.slice key = .nothing
  distinct : (t.polls.map (·.key)).Nodup → (t'.polls.map (·.key)).Nodup

theorem Thins.refl (t : Tables) : t.Thins t := ⟨fun _ => .inl rfl, id⟩

theorem Thins.trans (h : t.Thins t') (h' : t'.Thins u) : t.Thins u := by
  refine ⟨fun key => ?_, fun hd => h'.distinct (h.distinct hd)⟩
  rcases h'.slice key with he | he
  · rcases h.slice key with ho | ho
    · exact .inl (he.trans ho)
    · exact .inr (he.trans ho)
  · exact .inr he

theorem thins_putSettings (t : Tables) (row : SettingsRow) : t.Thins (t.putSettings row) :=
  ⟨fun _ => .inl rfl, id⟩

theorem thins_removePoll (t : Tables) (key : PollKey) : t.Thins (t.removePoll key) := by
  refine ⟨fun other => ?_, fun hd => hd.sublist (List.filter_sublist.map _)⟩
  have hslice := slice_removePoll t key other
  split at hslice
  · exact .inr hslice
  · exact .inl hslice

/-- What every removal of a stored poll keeps, the removal of those that ended keeps. -/
theorem removeAllEnded_keeps {P : Tables → Prop}
    (hremove : ∀ (t : Tables) key, (t.row? key).isSome → P t → P (t.removePoll key)) (cutoff : Int)
    (keys : List PollKey) (h : P t) : P (removeAllEnded cutoff keys t).2 := by
  induction keys generalizing t with
  | nil => exact h
  | cons key rest ih =>
    have hfirst : P (t.removeEnded key cutoff).2 := by
      rw [removeEnded_eq]
      split
      · next hended =>
        refine hremove t key ?_ h
        cases hr : t.row? key with
        | none =>
          rw [hr] at hended
          cases hended
        | some r => rfl
      · exact h
    exact ih hfirst

theorem changes_modifyRow {f : PollRow → PollRow} (hf : KeepsKey f)
    (hstamp : ∀ r, (f r).editedAt = stamp) (hseen : ∀ r, (f r).editSeenAt = r.editSeenAt)
    (h : t.modifyRow? key f = .ok t') : t.Changes key stamp t' := by
  obtain ⟨⟨r, hr⟩, rfl⟩ := modifyRow?_eq_ok h
  refine ⟨fun other ho => ?_, ⟨f r, ?_, hstamp r, .inr ⟨r, hr, hseen r⟩⟩, fun hd => ?_⟩
  · exact (slice_modifyRow hf t key other).trans (if_neg ho)
  · rw [row?_modifyRow hf, if_pos rfl, hr]
    rfl
  · rwa [keys_modifyRow hf]

theorem create_eq_ok {p : Poll} {now : Instant} (h : t.create key p now = .ok t') :
    (p.under key).validate = .ok () ∧ t.insertPoll (p.under key) now.millis = .ok t' := by
  obtain ⟨_, hvalid, hinsert⟩ := bind_eq_ok h
  exact ⟨mapError_eq_ok hvalid, mapError_eq_ok hinsert⟩

theorem revise_eq_ok {p : Poll} {now : Instant} (h : t.revise key p now = .ok t') :
    p.validate = .ok () ∧
      t.updatePoll key p.title p.description p.settings now.millis = .ok t' := by
  obtain ⟨_, hvalid, hupdate⟩ := bind_eq_ok h
  exact ⟨mapError_eq_ok hvalid, mapError_eq_ok hupdate⟩

theorem amend_eq_ok {e : Edit} {now : Instant} {p : Poll}
    (h : t.amend key e now = .ok (p, t')) :
    ∃ q, t.fetch key = .ok q ∧ p = q.edited e ∧ t.revise key p now = .ok t' := by
  obtain ⟨q, hfetch, h⟩ := bind_eq_ok h
  obtain ⟨p', happly, h⟩ := bind_eq_ok h
  obtain ⟨t', hrevise, he⟩ := bind_eq_ok h
  cases he
  refine ⟨q, mapError_eq_ok hfetch, ?_, hrevise⟩
  have hedited : (q.edited e).validate.map (fun _ => q.edited e) = .ok p := mapError_eq_ok happly
  cases hv : (q.edited e).validate with
  | error fault => rw [hv] at hedited; cases hedited
  | ok _ =>
    rw [hv] at hedited
    exact (Except.ok.inj hedited).symm

theorem castAnswers_eq_ok {voter : UserId} {chosen : IdSet} {now : Instant}
    (h : t.castAnswers key voter chosen now = .ok t') :
    ∃ q, t.fetch key = .ok q ∧ q.checkSelection chosen = .ok () ∧
      t.replaceAnswers key voter chosen.toList now.millis = .ok t' := by
  obtain ⟨q, hfetch, h⟩ := bind_eq_ok h
  obtain ⟨_, hchecked, hreplaced⟩ := bind_eq_ok h
  exact ⟨q, mapError_eq_ok hfetch, mapError_eq_ok hchecked, mapError_eq_ok hreplaced⟩

theorem changes_create {p : Poll} {now : Instant} (h : t.create key p now = .ok t') :
    t.Changes key now.millis t' := by
  obtain ⟨hnew, rfl⟩ := insertPoll_eq_ok (create_eq_ok h).2
  have hkey : (p.under key).key = key := rfl
  refine ⟨fun other ho => ?_, ⟨.ofPoll (p.under key) now.millis, ?_, rfl, .inl rfl⟩, fun hd => ?_⟩
  · rw [slice_withPoll t (p.under key) now.millis hnew, hkey, if_neg ho]
  · exact (row?_withPoll t (p.under key) now.millis hnew).trans (if_pos rfl)
  · have hmap : (t.withPoll (p.under key) now.millis).polls.map (·.key) =
        t.polls.map (·.key) ++ [key] := by
      simp [withPoll, PollRow.ofPoll, hkey]
    rw [hmap]
    refine List.nodup_append.mpr ⟨hd, by simp, fun a ha b hb => ?_⟩
    obtain ⟨r, hr, rfl⟩ := List.mem_map.mp ha
    obtain rfl := List.mem_singleton.mp hb
    exact row?_eq_none_iff.mp hnew r hr

theorem changes_revise {p : Poll} {now : Instant} (h : t.revise key p now = .ok t') :
    t.Changes key now.millis t' :=
  changes_modifyRow (keepsKey_withDetails _ _ _ _) (fun _ => rfl) (fun _ => rfl) (revise_eq_ok h).2

theorem changes_castAnswers {voter : UserId} {chosen : IdSet} {now : Instant}
    (h : t.castAnswers key voter chosen now = .ok t') : t.Changes key now.millis t' := by
  obtain ⟨q, -, -, hreplaced⟩ := castAnswers_eq_ok h
  have hothers := fun other (ho : other ≠ key) => slice_replaceAnswers hreplaced ho
  obtain ⟨added, rfl, ⟨r, hr⟩, -⟩ := replaceAnswers_eq_ok hreplaced
  have hmodify := changes_modifyRow (f := fun r => { r with editedAt := now.millis })
    (fun _ => rfl) (fun _ => rfl) (fun _ => rfl) (if_pos (Option.isSome_of_eq_some hr))
  exact ⟨hothers, hmodify.row, hmodify.distinct⟩

/-- A request within a guild that succeeds changes the poll that it names, or none. -/
theorem changes_serve {guild : GuildId} {now : Instant} {r : GuildRequest} {a : Answer}
    (h : t.serve guild now r = .ok (a, t')) :
    match r.changed? with
    | some id => t.Changes ⟨guild, id⟩ now.millis t'
    | none => t.Thins t' := by
  cases r with
  | settings | poll id | lastEdit id =>
    obtain ⟨x, -, hx⟩ := bind_eq_ok h
    cases hx
    exact .refl t
  | setSettings s =>
    cases h
    exact thins_putSettings t _
  | insert id p =>
    obtain ⟨x, hx, he⟩ := bind_eq_ok h
    cases he
    exact changes_create hx
  | update id p =>
    obtain ⟨x, hx, he⟩ := bind_eq_ok h
    cases he
    exact changes_revise hx
  | edit id e =>
    obtain ⟨⟨p, x⟩, hx, he⟩ := bind_eq_ok h
    cases he
    obtain ⟨q, -, -, hrevise⟩ := amend_eq_ok hx
    exact changes_revise hrevise
  | cast id voter chosen =>
    obtain ⟨x, hx, he⟩ := bind_eq_ok h
    cases he
    exact changes_castAnswers hx
  | pollIds =>
    cases h
    exact .refl t

end Tables

/-- The request within a guild that an event made, if it was granted. -/
def StoreEvent.granted? : StoreEvent → StoreReply → Option (GuildId × GuildRequest)
  | .request _ (.ofGuild h r), .answer (.ok _) => some (h.guild, r)
  | _, _ => none

namespace DirectStore

theorem deleteExpired_keeps {P : Tables → Prop}
    (hremove : ∀ (t : Tables) key, (t.row? key).isSome → P t → P (t.removePoll key))
    (s : DirectStore) (before : Instant) (h : P s.tables) : P (s.deleteExpired before).2.tables := by
  have hguild : ∀ (u : DirectStore) (guild : GuildId) (keys : List PollKey), P u.tables →
      P (u.deleteEndedOf before.ceilSeconds guild keys).2.tables := by
    intro u guild keys hu
    simp only [deleteEndedOf]
    split
    · exact hu
    · exact Tables.removeAllEnded_keeps hremove _ keys hu
  have hgroups : ∀ (groups : List (GuildId × List PollKey)) (n : Nat) (u : DirectStore), P u.tables →
      P (groups.foldl (fun r group =>
        (r.1 + (r.2.deleteEndedOf before.ceilSeconds group.1 group.2).1,
          (r.2.deleteEndedOf before.ceilSeconds group.1 group.2).2)) (n, u)).2.tables := by
    intro groups
    induction groups with
    | nil => exact fun _ _ hu => hu
    | cons group rest ih => exact fun n u hu => ih _ _ (hguild u group.1 group.2 hu)
  exact hgroups _ 0 s h

theorem thins_deleteExpired (s : DirectStore) (before : Instant) :
    s.tables.Thins (s.deleteExpired before).2.tables :=
  deleteExpired_keeps (P := s.tables.Thins)
    (fun t key _ h => h.trans (Tables.thins_removePoll t key)) s before (.refl s.tables)

/-- An event serves the request that it grants. Any other event of a client changes no poll. -/
theorem serves_or_thins (s : DirectStore) (e : StoreEvent) :
    match e.granted? (s.react e).1 with
    | some (guild, r) => ∃ now a, s.tables.serve guild now r = .ok (a, (s.react e).2.tables) ∧
        e.change? (s.react e).1 = r.changed?.map fun id => (⟨guild, id⟩, now.millis)
    | none => e.change? (s.react e).1 = none ∧
        (e.isClients → s.tables.Thins (s.react e).2.tables) := by
  cases e with
  | request now r =>
    cases r with
    | ofGuild h r =>
      by_cases hheld : s.locks.isHeld h
      · have hserved : s.answer now (.ofGuild h r) = s.served (s.tables.serve h.guild now r) :=
          if_pos hheld
        simp only [react, hserved]
        cases hs : s.tables.serve h.guild now r with
        | error e => exact ⟨rfl, fun _ => .refl _⟩
        | ok x => exact ⟨now, x.1, hs, rfl⟩
      · have hrefused : s.answer now (.ofGuild h r) =
            (.error (.fatal (.releasedHandle h.guild)), s) := if_neg hheld
        simp only [react, hrefused]
        exact ⟨rfl, fun _ => .refl _⟩
    | deleteExpired before => exact ⟨rfl, fun _ => s.thins_deleteExpired before⟩
    | editedSince cutoff =>
      simp only [react, answer]
      cases (s.tables.unseenSince cutoff.millis).mapM PollEdit.ofStamp <;>
        exact ⟨rfl, fun _ => .refl _⟩
    | endedUnrefreshed _ | clearCaches => exact ⟨rfl, fun _ => .refl _⟩
    | markFinal _ | markSeen _ | persist _ | takePersisted _ => exact ⟨rfl, nofun⟩
  | acquire _ | acquireUnless _ _ | wait _ | giveUp _ | release _ | evict _ _ _ =>
    exact ⟨rfl, fun _ => .refl _⟩

/-- An event of a client changes the poll that it names, or none. -/
theorem changes_react (s : DirectStore) {e : StoreEvent} (he : e.isClients) :
    match e.change? (s.react e).1 with
    | some (key, stamp) => s.tables.Changes key stamp (s.react e).2.tables
    | none => s.tables.Thins (s.react e).2.tables := by
  have hstep := s.serves_or_thins e
  cases hgranted : e.granted? (s.react e).1 with
  | none =>
    rw [hgranted] at hstep
    rw [hstep.1]
    exact hstep.2 he
  | some granted =>
    obtain ⟨guild, r⟩ := granted
    rw [hgranted] at hstep
    obtain ⟨now, a, hserve, hchange⟩ := hstep
    have hchanges := Tables.changes_serve hserve
    rw [hchange]
    cases hid : r.changed? with
    | none =>
      rw [hid] at hchanges
      exact hchanges
    | some id =>
      rw [hid] at hchanges
      exact hchanges

end DirectStore
end PollKeeper
