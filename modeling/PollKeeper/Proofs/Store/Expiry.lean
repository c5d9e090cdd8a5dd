import PollKeeper.Proofs.Lock.Line
import PollKeeper.Proofs.Store.FinalNotes
import PollKeeper.Proofs.Store.Isolation
import PollKeeper.Proofs.Store.Soundness

/-!
# Polls that ended long ago

Which polls a deletion takes away and which locks it meets. Polls that ended go with everything that is
stored about them; those of a guild whose lock is not free stay.
-/

namespace PollKeeper

open Time

namespace Tables

variable {t t' u : Tables} {key : PollKey} {cutoff : Int} {named named' : PollKey → Prop} {n m : Nat}

/-- The named polls are gone with all that was stored about them, and nothing else has changed. -/
structure Deletes (t : Tables) (named : PollKey → Prop) (n : Nat) (t' : Tables) : Prop where
  gone : ∀ key, named key → t'.slice key = .nothing
  kept : ∀ key, ¬ named key → t'.slice key = t.slice key
  settings : t'.settings = t.settings
  distinct : (t.polls.map (·.key)).Nodup → (t'.polls.map (·.key)).Nodup
  /-- How many polls there are fewer. -/
  count : (t.polls.map (·.key)).Nodup → n + t'.polls.length = t.polls.length

namespace Deletes

theorem none (t : Tables) : t.Deletes (fun _ => False) 0 t :=
  ⟨nofun, fun _ _ => rfl, rfl, id, fun _ => Nat.zero_add _⟩

theorem congr (h : t.Deletes named n t') (hnamed : ∀ key, named' key ↔ named key) :
    t.Deletes named' n t' :=
  ⟨fun key hkey => h.gone key ((hnamed key).mp hkey),
    fun key hkey => h.kept key fun hn => hkey ((hnamed key).mpr hn), h.settings, h.distinct, h.count⟩

theorem trans (h : t.Deletes named n t') (h' : t'.Deletes named' m u) :
    t.Deletes (fun key => named key ∨ named' key) (n + m) u := by
  refine ⟨fun key hkey => ?_, fun key hkey => ?_, h'.settings.trans h.settings,
    fun hd => h'.distinct (h.distinct hd), fun hd => ?_⟩
  · by_cases hlater : named' key
    · exact h'.gone key hlater
    · exact (h'.kept key hlater).trans (h.gone key (hkey.resolve_right hlater))
  · rw [not_or] at hkey
    exact (h'.kept key hkey.2).trans (h.kept key hkey.1)
  · rw [Nat.add_assoc, h'.count (h.distinct hd), h.count hd]

end Deletes

def HasEnded (t : Tables) (cutoff : Int) (key : PollKey) : Prop :=
  ∃ r, t.row? key = some r ∧ r.endAt < cutoff

theorem hasEnded_iff : t.HasEnded cutoff key ↔ (t.row? key).any (·.endedBefore cutoff) = true := by
  rw [HasEnded]
  cases t.row? key <;> simp [PollRow.endedBefore, PollRow.endAt]

/-- The row of a poll ends with the poll. -/
theorem endAt_of_denotes {p : Poll} {r : PollRow} (hp : (t.slice key).Denotes key (some p))
    (hr : t.row? key = some r) : r.endAt = p.start.seconds + p.settings.seconds := by
  obtain ⟨r', hr', hunstamped⟩ := Option.map_eq_some_iff.mp hp.2.row
  obtain rfl : r' = r := Option.some.inj (hr'.symm.trans hr)
  have hstart : r'.startAt = p.start.seconds := congrArg PollRow.startAt hunstamped
  have hduration : r'.durationSeconds = p.settings.seconds := congrArg PollRow.durationSeconds hunstamped
  rw [PollRow.endAt, hstart, hduration]

theorem hasEnded_of_denotes {p : Poll} (hp : (t.slice key).Denotes key (some p)) :
    t.HasEnded cutoff key ↔ p.start.seconds + p.settings.seconds < cutoff := by
  obtain ⟨r, hr, -⟩ := Option.map_eq_some_iff.mp hp.2.row
  have hrow : t.row? key = some r := hr
  simp only [HasEnded, hrow, Option.some.injEq, exists_eq_left', endAt_of_denotes hp hrow]

theorem Deletes.hasEnded (h : t.Deletes named n t') :
    t'.HasEnded cutoff key ↔ ¬ named key ∧ t.HasEnded cutoff key := by
  by_cases hkey : named key
  · have hgone : t'.row? key = .none := congrArg PollSlice.row (h.gone key hkey)
    simp [HasEnded, hgone, hkey]
  · have hkept : t'.row? key = t.row? key := congrArg PollSlice.row (h.kept key hkey)
    simp [HasEnded, hkept, hkey]

theorem length_removePoll (hkeys : (t.polls.map (·.key)).Nodup) {r : PollRow}
    (hr : t.row? key = some r) : 1 + (t.removePoll key).polls.length = t.polls.length := by
  have hmem : key ∈ t.polls.map (·.key) := List.mem_map.mpr ⟨r, mem_of_row? hr, key_of_row? hr⟩
  have hmap : (t.removePoll key).polls.map (·.key) = (t.polls.map (·.key)).erase key := by
    rw [hkeys.erase_eq_filter, List.filter_map]
    congr 1
    refine List.filter_congr fun r _ => ?_
    simp [bne, Bool.beq_eq_decide_eq]
  have hpos : 0 < (t.polls.map (·.key)).length := List.length_pos_of_mem hmem
  have hlength := congrArg List.length hmap
  rw [List.length_erase_of_mem hmem] at hlength
  simp only [List.length_map] at hlength hpos
  omega

theorem deletes_removePoll {r : PollRow} (hr : t.row? key = some r) :
    t.Deletes (· = key) 1 (t.removePoll key) := by
  refine ⟨fun other ho => ?_, fun other ho => ?_, rfl, (thins_removePoll t key).distinct,
    fun hd => length_removePoll hd hr⟩
  · rw [slice_removePoll, if_pos ho]
  · rw [slice_removePoll, if_neg ho]

theorem removeEnded_of_hasEnded (h : t.HasEnded cutoff key) :
    t.removeEnded key cutoff = (true, t.removePoll key) := by
  rw [removeEnded_eq, if_pos (hasEnded_iff.mp h)]

theorem removeEnded_of_not_hasEnded (h : ¬ t.HasEnded cutoff key) :
    t.removeEnded key cutoff = (false, t) := by
  rw [removeEnded_eq, if_neg (mt hasEnded_iff.mpr h)]

private theorem deletes_removeEnded (t : Tables) (key : PollKey) (cutoff : Int) :
    t.Deletes (fun k => k = key ∧ t.HasEnded cutoff k)
      (if (t.removeEnded key cutoff).1 then 1 else 0) (t.removeEnded key cutoff).2 := by
  by_cases hended : t.HasEnded cutoff key
  · rw [removeEnded_of_hasEnded hended]
    obtain ⟨r, hr, -⟩ := id hended
    exact (deletes_removePoll hr).congr fun k => and_iff_left_of_imp fun he => he ▸ hended
  · rw [removeEnded_of_not_hasEnded hended]
    refine (Deletes.none t).congr fun k => iff_false_intro ?_
    rintro ⟨rfl, hkey⟩
    exact hended hkey

private theorem deletes_removeAllEnded (t : Tables) (cutoff : Int) (keys : List PollKey) :
    t.Deletes (fun k => k ∈ keys ∧ t.HasEnded cutoff k) (t.removeAllEnded cutoff keys).1
      (t.removeAllEnded cutoff keys).2 := by
  induction keys generalizing t with
  | nil => exact (Deletes.none t).congr (by simp)
  | cons key rest ih =>
    have hfirst := deletes_removeEnded t key cutoff
    have hall := hfirst.trans (ih (t.removeEnded key cutoff).2)
    rw [Nat.add_comm] at hall
    refine hall.congr fun k => ?_
    rw [hfirst.hasEnded, List.mem_cons]
    grind

theorem mem_endedBefore (hkeys : (t.polls.map (·.key)).Nodup) :
    key ∈ t.endedBefore cutoff ↔ t.HasEnded cutoff key := by
  simp only [endedBefore, mem_keysWhere hkeys, PollRow.endedBefore, decide_eq_true_eq]
  rfl

end Tables

theorem Store.mem_byGuild {keys members : List PollKey} {guild : GuildId} :
    (guild, members) ∈ byGuild keys ↔
      (∃ key ∈ keys, key.guild = guild) ∧ members = keys.filter (·.guild = guild) := by
  simp only [byGuild, List.mem_map, List.mem_eraseDups, Prod.mk.injEq]
  constructor
  · rintro ⟨_, hkey, rfl, rfl⟩
    exact ⟨hkey, rfl⟩
  · rintro ⟨hkey, rfl⟩
    exact ⟨guild, hkey, rfl, rfl⟩

namespace DirectStore

variable {s : DirectStore}

structure KeepsLocks (s s' : DirectStore) : Prop where
  proper : s'.locks.Proper
  lockOf : ∀ guild, s'.locks.lockOf guild = s.locks.lockOf guild

theorem KeepsLocks.trans {s s' u : DirectStore} (h : s.KeepsLocks s') (h' : s'.KeepsLocks u) :
    s.KeepsLocks u :=
  ⟨h'.proper, fun guild => (h'.lockOf guild).trans (h.lockOf guild)⟩

/-- The polls of a guild whose lock is free go if they ended. -/
theorem deletes_deleteEndedOf (hs : s.locks.Proper) (cutoff : Int) (guild : GuildId)
    (keys : List PollKey) :
    s.tables.Deletes
        (fun k => k ∈ keys ∧ s.locks.lockOf guild = .free ∧ s.tables.HasEnded cutoff k)
        (s.deleteEndedOf cutoff guild keys).1 (s.deleteEndedOf cutoff guild keys).2.tables ∧
      s.KeepsLocks (s.deleteEndedOf cutoff guild keys).2 := by
  have hacquire := hs.acquire_release guild
  simp only [deleteEndedOf]
  split at hacquire
  · next hfree =>
    obtain ⟨h, locks, hacquired, -, hlocks, hissued⟩ := hacquire
    rw [hacquired]
    refine ⟨(s.tables.deletes_removeAllEnded cutoff keys).congr fun k => ?_,
      hs.congr hlocks (hissued ▸ Nat.le_succ _), hlocks⟩
    simp [hfree]
  · next hbusy =>
    obtain ⟨locks, hacquired, hlocks, hissued⟩ := hacquire
    rw [hacquired]
    refine ⟨(Tables.Deletes.none s.tables).congr fun k => ?_,
      hs.congr hlocks (hissued ▸ Nat.le_succ _), hlocks⟩
    simp [hbusy]

theorem deletes_groups (hs : s.locks.Proper) (cutoff : Int) (groups : List (GuildId × List PollKey))
    (n : Nat) :
    let r := groups.foldl (fun (n, s) (guild, keys) =>
      let (m, s) := s.deleteEndedOf cutoff guild keys
      (n + m, s)) (n, s)
    (∃ m, r.1 = n + m ∧ s.tables.Deletes (fun k => ∃ group ∈ groups, k ∈ group.2 ∧
      s.locks.lockOf group.1 = .free ∧ s.tables.HasEnded cutoff k) m r.2.tables) ∧
        s.KeepsLocks r.2 := by
  induction groups generalizing n s with
  | nil => exact ⟨⟨0, rfl, (Tables.Deletes.none s.tables).congr (by simp)⟩, hs, fun _ => rfl⟩
  | cons group rest ih =>
    obtain ⟨hfirst, hlocks⟩ := deletes_deleteEndedOf hs cutoff group.1 group.2
    obtain ⟨⟨m, hn, hrest⟩, hrestLocks⟩ := ih hlocks.proper (n + (s.deleteEndedOf cutoff group.1 group.2).1)
    refine ⟨⟨_, hn.trans (Nat.add_assoc _ _ _), (hfirst.trans hrest).congr fun k => ?_⟩,
      hlocks.trans hrestLocks⟩
    simp only [List.mem_cons, exists_eq_or_imp, hfirst.hasEnded, hlocks.lockOf]
    constructor
    · rintro (hk | ⟨other, ho, hmem, hfree, hended⟩)
      · exact .inl hk
      · by_cases hk : k ∈ group.2 ∧ s.locks.lockOf group.1 = .free ∧ s.tables.HasEnded cutoff k
        · exact .inl hk
        · exact .inr ⟨other, ho, hmem, hfree, hk, hended⟩
    · rintro (hk | ⟨other, ho, hmem, hfree, -, hended⟩)
      · exact .inl hk
      · exact .inr ⟨other, ho, hmem, hfree, hended⟩

theorem keepsLocks_deleteExpired (hs : s.locks.Proper) (before : Instant) :
    s.KeepsLocks (s.deleteExpired before).2 := by
  obtain ⟨-, hlocks⟩ := deletes_groups hs before.ceilSeconds
    (Store.byGuild (s.tables.endedBefore before.ceilSeconds)) 0
  exact hlocks.trans ⟨hlocks.proper.pruneIdle, Locks.lockOf_pruneIdle _⟩

/-- The polls that ended go, except those of guilds whose locks are not free. -/
theorem deletes_deleteExpired (hs : s.locks.Proper) (hkeys : (s.tables.polls.map (·.key)).Nodup)
    (before : Instant) :
    s.tables.Deletes
      (fun k => s.locks.lockOf k.guild = .free ∧ s.tables.HasEnded before.ceilSeconds k)
      (s.deleteExpired before).1 (s.deleteExpired before).2.tables := by
  obtain ⟨⟨m, hm, hdeletes⟩, -⟩ := deletes_groups hs before.ceilSeconds
    (Store.byGuild (s.tables.endedBefore before.ceilSeconds)) 0
  have hcount : (s.deleteExpired before).1 = m := hm.trans (Nat.zero_add m)
  rw [hcount]
  refine hdeletes.congr fun k => ?_
  constructor
  · rintro ⟨hfree, hended⟩
    have hlisted := (Tables.mem_endedBefore hkeys).mpr hended
    exact ⟨(k.guild, _), Store.mem_byGuild.mpr ⟨⟨k, hlisted, rfl⟩, rfl⟩,
      List.mem_filter.mpr ⟨hlisted, by simp⟩, hfree, hended⟩
  · rintro ⟨⟨guild, members⟩, hgroup, hk, hfree, hended⟩
    obtain ⟨-, rfl⟩ := Store.mem_byGuild.mp hgroup
    have hguild : k.guild = guild := by simpa using (List.mem_filter.mp hk).2
    exact ⟨hguild ▸ hfree, hended⟩

@[simp] theorem locks_served {α : Type} (s : DirectStore) (r : Except StoreError (α × Tables)) :
    (s.served r).2.locks = s.locks := by
  cases r <;> rfl

/-- A request leaves the locks as they are, unless it is a sweep, which leaves them as free as before. -/
theorem locks_answer (s : DirectStore) (now : Instant) (r : Request) :
    (∃ before, r = .deleteExpired before ∧
        (s.answer now r).2.locks = (s.deleteExpired before).2.locks) ∨
      (s.answer now r).2.locks = s.locks := by
  cases r with
  | deleteExpired before => exact .inl ⟨before, rfl, rfl⟩
  | ofGuild h r =>
    refine .inr ?_
    simp only [answer]
    split
    · exact locks_served s _
    · rfl
  | endedUnrefreshed _ | markFinal _ | editedSince _ | markSeen _ | persist _ | takePersisted _ =>
    exact .inr (locks_served s _)
  | clearCaches => exact .inr rfl

private theorem proper_react (hs : s.locks.Proper) (e : StoreEvent) : (s.react e).2.locks.Proper := by
  cases e with
  | acquire guild => exact hs.acquire guild
  | acquireUnless cancelled guild => exact hs.acquireUnless cancelled guild
  | wait guild => exact hs.request guild
  | giveUp h => exact hs.giveUp h
  | release h => exact hs.release h
  | request now r =>
    rcases s.locks_answer now r with ⟨before, -, hlocks⟩ | hlocks
    · exact (congrArg Locks.Proper hlocks).mpr (keepsLocks_deleteExpired hs before).proper
    · exact (congrArg Locks.Proper hlocks).mpr hs
  | evict _ _ _ => exact hs

end DirectStore

def StoreEvent.Uses (h : Handle) : StoreEvent → Prop
  | .giveUp other => other = h
  | .release other => other = h
  | .request _ (.ofGuild other _) => other = h
  | _ => False

namespace DirectStore

theorem isHeld_react {s : DirectStore} (hs : s.locks.Proper) {h : Handle} {e : StoreEvent}
    (he : ¬ e.Uses h) (hheld : s.locks.isHeld h) : (s.react e).2.locks.isHeld h = true := by
  cases e with
  | acquire guild => exact Locks.isHeld_acquire hheld guild
  | acquireUnless cancelled guild => exact Locks.isHeld_acquireUnless hheld cancelled guild
  | wait guild => exact Locks.isHeld_request hheld guild
  | giveUp other => exact Locks.isHeld_giveUp hheld other
  | release other => exact Locks.isHeld_release hheld he
  | request now r =>
    rcases s.locks_answer now r with ⟨before, -, hlocks⟩ | hlocks
    · have hkept := Locks.isHeld_congr (h := h) ((keepsLocks_deleteExpired hs before).lockOf h.guild)
      exact (congrArg (·.isHeld h) hlocks).trans (hkept.trans hheld)
    · exact (congrArg (·.isHeld h) hlocks).trans hheld
  | evict _ _ _ => exact hheld

end DirectStore

namespace Store

/-- The caches show the tables, the tables hold whole polls under distinct keys, and the lines before the
locks are in order. -/
structure InOrder (s : Store) : Prop where
  coherent : s.Coherent
  proper : s.locks.Proper
  sound : s.database.tables.Sound
  keys : s.database.tables.PrimaryKeys

variable {s : Store}

theorem InOrder.react (hs : s.InOrder) (e : StoreEvent) : (s.react e).2.InOrder := by
  obtain ⟨hcoherent, -, htables⟩ := leaves_react hs.coherent e
  have hlocks := congrArg DirectStore.locks (direct_react hs.coherent e)
  refine ⟨hcoherent, ?_, ?_, ?_⟩
  · exact (congrArg Locks.Proper hlocks).mpr (DirectStore.proper_react (s := s.direct) hs.proper e)
  · exact htables ▸ DirectStore.sound_react (s := s.direct) hs.sound e
  · exact htables ▸ DirectStore.primaryKeys_react s.direct e hs.keys

theorem inOrder_after (events : List StoreEvent) : (fresh.after events).InOrder := by
  have hall : ∀ s : Store, s.InOrder → (s.after events).InOrder := by
    induction events with
    | nil => exact fun _ hs => hs
    | cons e rest ih => exact fun s hs => ih _ (hs.react e)
  exact hall fresh ⟨coherent_fresh, .empty, Tables.sound_empty, Tables.primaryKeys_empty⟩

/-- A lock stays with its holder, whatever others do. -/
theorem InOrder.isHeld_react (hs : s.InOrder) {h : Handle} {e : StoreEvent} (he : ¬ e.Uses h)
    (hheld : s.locks.isHeld h) : (s.react e).2.locks.isHeld h = true := by
  have hlocks := congrArg DirectStore.locks (direct_react hs.coherent e)
  exact (congrArg (·.isHeld h) hlocks).trans
    (DirectStore.isHeld_react (s := s.direct) hs.proper he hheld)

/-- A deletion of expired polls succeeds and counts what it deletes: the polls that ended, except those of
guilds whose locks are not free. -/
theorem outcome_deleteExpired (hs : s.InOrder) (before : Instant) :
    ∃ n s', (deleteExpired before).outcome s = (.ok n, s') ∧
      s.database.tables.Deletes (fun key => s.locks.lockOf key.guild = .free ∧
        ∃ r, s.database.tables.row? key = some r ∧ before.IsPast r.endAt) n s'.database.tables := by
  obtain ⟨-, hresult, htables⟩ := leaves_deleteExpired hs.coherent before
  refine ⟨_, _, Prod.ext hresult rfl, ?_⟩
  rw [htables]
  refine (DirectStore.deletes_deleteExpired (s := s.direct) hs.proper hs.keys.polls
    before).congr fun key => ?_
  simp only [Tables.HasEnded, Instant.isPast_iff_lt_ceilSeconds]
  rfl

end Store
end PollKeeper
