import Mathlib.Data.List.Basic
import Mathlib.Data.List.TakeWhile
import PollKeeper.Refresh.Queue

/-!
# Sound queues

The order of a queue and its entries agree, whatever is put in or taken out. What each operation does
to the refreshes in line is said about `toList` alone.
-/

namespace PollKeeper

open Time

namespace Keyed

variable {κ α : Type} [DecidableEq κ] {m : Keyed κ α} {k : κ}

theorem mem_keys : k ∈ m.keys ↔ (m.get? k).isSome := by
  rw [← not_iff_not, Option.not_isSome_iff_eq_none, get?, List.lookup_eq_none_iff, keys, List.mem_map,
    not_exists]
  refine forall_congr' fun e => ?_
  rw [not_and, bne_iff_ne, ne_comm]

end Keyed

namespace RefreshQueue

variable {q : RefreshQueue} {key : PollKey} {r : Refresh}

def keys (q : RefreshQueue) : List PollKey := q.toList.map (·.key)

/-- The keys in line are those that have an entry, each of them once, and each entry carries its
own key. -/
structure Sound (q : RefreshQueue) : Prop where
  nodup : q.order.Nodup
  mem_order : ∀ key, key ∈ q.order ↔ (q.entries.get? key).isSome
  key_eq : ∀ key r, q.entries.get? key = some r → r.key = key

theorem sound_empty : empty.Sound := by
  refine ⟨.nil, fun key => ?_, fun key r h => ?_⟩
  · simp [empty]
  · simp [empty] at h

namespace Sound

theorem get?_of_mem (h : q.Sound) (hk : key ∈ q.order) : ∃ r, q.entries.get? key = some r :=
  Option.isSome_iff_exists.mp ((h.mem_order key).mp hk)

theorem mem_of_get? (h : q.Sound) (hget : q.entries.get? key = some r) : key ∈ q.order := by
  rw [h.mem_order, hget]
  rfl

theorem not_mem_of_get? (h : q.Sound) (hget : q.entries.get? key = none) : key ∉ q.order := by
  rw [h.mem_order, hget]
  exact Bool.false_ne_true

theorem mem_toList (h : q.Sound) : r ∈ q.toList ↔ q.entries.get? r.key = some r := by
  constructor
  · intro hr
    obtain ⟨key, -, hget⟩ := List.mem_filterMap.mp hr
    rwa [h.key_eq key r hget]
  · intro hget
    exact List.mem_filterMap.mpr ⟨r.key, h.mem_of_get? hget, hget⟩

theorem keys_eq (h : q.Sound) : q.keys = q.order := by
  have hall : ∀ order : List PollKey, (∀ key ∈ order, key ∈ q.order) →
      (order.filterMap q.entries.get?).map (·.key) = order := by
    intro order hsub
    induction order with
    | nil => rfl
    | cons key rest ih =>
      obtain ⟨r, hr⟩ := h.get?_of_mem (hsub key List.mem_cons_self)
      rw [List.filterMap_cons, hr, List.map_cons, h.key_eq key r hr,
        ih fun k hk => hsub k (List.mem_cons_of_mem _ hk)]
  exact hall q.order fun _ hk => hk

/-- No poll has two refreshes in line. -/
theorem nodup_keys (h : q.Sound) : q.keys.Nodup := by
  rw [h.keys_eq]
  exact h.nodup

theorem of_perm {order : List PollKey} (h : q.Sound) (hp : order.Perm q.order) :
    Sound ⟨order, q.entries⟩ :=
  ⟨hp.nodup_iff.mpr h.nodup, fun key => hp.mem_iff.trans (h.mem_order key), h.key_eq⟩

theorem erase {order : List PollKey} {entries : Keyed PollKey Refresh}
    (h : Sound ⟨key :: order, entries⟩) : Sound ⟨order, entries.erase key⟩ := by
  obtain ⟨hkey, hrest⟩ := List.nodup_cons.mp h.nodup
  refine ⟨hrest, fun k => ?_, fun k r hr => ?_⟩
  · have hmem := h.mem_order k
    simp only [List.mem_cons] at hmem
    by_cases hk : k = key
    · subst hk
      simp [hkey]
    · simpa [hk] using hmem
  · simp only [Keyed.get?_erase] at hr
    split at hr
    · cases hr
    · exact h.key_eq k r hr

end Sound

theorem filterMap_erase {order : List PollKey} (entries : Keyed PollKey Refresh)
    (h : key ∉ order) :
    order.filterMap (entries.erase key).get? = order.filterMap entries.get? := by
  apply List.filterMap_congr
  intro k hk
  have hne : k ≠ key := fun he => h (he ▸ hk)
  simp [hne]

theorem mem_takeOut {keys : List PollKey} {entries : Keyed PollKey Refresh} :
    r ∈ takeOut keys entries ↔ ∃ key ∈ keys, entries.get? key = some r := by
  induction keys generalizing entries with
  | nil => simp [takeOut]
  | cons key rest ih =>
    cases hget : entries.get? key with
    | none => simp [takeOut, hget, ih]
    | some old =>
      simp only [takeOut, hget, List.mem_cons, ih, Keyed.get?_erase, exists_eq_or_imp, Option.some.injEq]
      -- A key that comes again has no entry any more, and its refresh is there already.
      grind

private theorem takeOut_eq {keys : List PollKey} (entries : Keyed PollKey Refresh) (h : keys.Nodup) :
    takeOut keys entries = keys.filterMap entries.get? := by
  induction keys generalizing entries with
  | nil => rfl
  | cons key rest ih =>
    obtain ⟨hkey, hrest⟩ := List.nodup_cons.mp h
    rw [takeOut, List.filterMap_cons]
    cases entries.get? key with
    | none => exact ih entries hrest
    | some r => exact congrArg (r :: ·) ((ih _ hrest).trans (filterMap_erase entries hkey))

theorem mem_drain : r ∈ q.drain.1 ↔ r ∈ q.toList := mem_takeOut.trans List.mem_filterMap.symm

/-- What is taken out of a sound queue is what is in line, in its order. -/
theorem drain_eq (h : q.Sound) : q.drain = (q.toList, .empty) :=
  congrArg (·, empty) (takeOut_eq q.entries h.nodup)

theorem sound_upsert (h : q.Sound) (r : Refresh) : (q.upsert r).2.Sound := by
  unfold upsert
  cases hget : q.entries.get? r.key with
  | some old =>
    refine ⟨h.nodup, fun k => ?_, fun k s hs => ?_⟩
    · rw [h.mem_order k, Keyed.get?_set]
      split
      · next hk => simp [hk, hget]
      · rfl
    · rw [Keyed.get?_set] at hs
      split at hs
      · next hk =>
        obtain rfl := Option.some.inj hs
        exact (h.key_eq r.key old hget).trans hk.symm
      · exact h.key_eq k s hs
  | none =>
    have hnew := h.not_mem_of_get? hget
    refine ⟨?_, fun k => ?_, fun k s hs => ?_⟩
    · refine List.nodup_append.mpr ⟨h.nodup, by simp, fun a ha b hb => ?_⟩
      obtain rfl := List.mem_singleton.mp hb
      rintro rfl
      exact hnew ha
    · rw [List.mem_append, h.mem_order k, List.mem_singleton, Keyed.get?_set]
      split
      · next hk => simp [hk]
      · next hk => simp [hk]
    · rw [Keyed.get?_set] at hs
      split at hs
      · next hk =>
        obtain rfl := Option.some.inj hs
        exact hk.symm
      · exact h.key_eq k s hs

/-- A request for a poll in line moves nothing and puts off its timeout only; another one goes to the
end. -/
theorem toList_upsert (h : q.Sound) (r : Refresh) :
    (q.upsert r).2.toList =
      if r.key ∈ q.order then
        q.toList.map fun old =>
          if old.key = r.key then { old with timeout := old.timeout.later r.timeout } else old
      else q.toList ++ [r] := by
  unfold upsert
  cases hget : q.entries.get? r.key with
  | some old =>
    rw [if_pos (h.mem_of_get? hget), toList, toList, List.map_filterMap]
    apply List.filterMap_congr
    intro k hk
    obtain ⟨s, hs⟩ := h.get?_of_mem hk
    have hkey := h.key_eq k s hs
    rw [Keyed.get?_set, hs, Option.map_some, hkey]
    split
    · next he =>
      subst he
      rw [hget] at hs
      rw [Option.some.inj hs, hkey]
    · rfl
  | none =>
    have hnew := h.not_mem_of_get? hget
    rw [if_neg hnew, toList, List.filterMap_append]
    congr 1
    · apply List.filterMap_congr
      intro k hk
      have hne : k ≠ r.key := fun he => hnew (he ▸ hk)
      simp [hne]
    · simp

theorem order_upsert (h : q.Sound) (r : Refresh) :
    (q.upsert r).2.order = if r.key ∈ q.order then q.order else q.order ++ [r.key] := by
  unfold upsert
  cases hget : q.entries.get? r.key with
  | some old => rw [if_pos (h.mem_of_get? hget)]
  | none => rw [if_neg (h.not_mem_of_get? hget)]

theorem upsert_fst (q : RefreshQueue) (r : Refresh) :
    (q.upsert r).1 = (q.entries.get? r.key).isNone := by
  unfold upsert
  cases q.entries.get? r.key <;> rfl

theorem mem_keys_upsert (h : q.Sound) :
    key ∈ (q.upsert r).2.keys ↔ key ∈ q.keys ∨ key = r.key := by
  rw [(sound_upsert h r).keys_eq, h.keys_eq, order_upsert h]
  split
  · next hr =>
    refine ⟨.inl, fun hk => ?_⟩
    rcases hk with hk | rfl
    · exact hk
    · exact hr
  · rw [List.mem_append, List.mem_singleton]

end RefreshQueue

/-- Whether a pass stops at a refresh. -/
def Refresh.isEligible (r : Refresh) (now : Instant) (reachable : GuildId → Bool) : Bool :=
  !r.isExpired now && r.isDue now && reachable r.key.guild

/-- What a pass over a line finds, when the refreshes in `passed` stand behind the line. -/
structure Popped.Splits (p : Popped) (now : Instant) (reachable : GuildId → Bool)
    (line passed : List Refresh) : Prop where
  next : p.next = line.find? (·.isEligible now reachable)
  expired : p.expired =
    (line.takeWhile (!·.isEligible now reachable)).filter (·.isExpired now)
  sound : p.queue.Sound
  toList : p.queue.toList = (line.dropWhile (!·.isEligible now reachable)).tail ++ passed ++
    (line.takeWhile (!·.isEligible now reachable)).filter (!·.isExpired now)

namespace Popped.Splits

variable {p : Popped} {now : Instant} {reachable : GuildId → Bool} {line passed : List Refresh}
  {r : Refresh}

theorem of_next_eq_some (h : p.Splits now reachable line passed) (hnext : p.next = some r) :
    ∃ before behind, line = before ++ r :: behind ∧ r.isEligible now reachable = true ∧
      (∀ s ∈ before, s.isEligible now reachable = false) ∧
      p.expired = before.filter (·.isExpired now) ∧
      p.queue.toList = behind ++ passed ++ before.filter (!·.isExpired now) := by
  obtain ⟨hstop, before, behind, hline, hbefore⟩ :=
    List.find?_eq_some_iff_append.mp (h.next.symm.trans hnext)
  have htake : line.takeWhile (!·.isEligible now reachable) = before := by
    rw [hline, List.takeWhile_append_of_pos hbefore, List.takeWhile_cons_of_neg (by simp [hstop]),
      List.append_nil]
  have hdrop : line.dropWhile (!·.isEligible now reachable) = r :: behind := by
    rw [hline, List.dropWhile_append_of_pos hbefore, List.dropWhile_cons_of_neg (by simp [hstop])]
  refine ⟨before, behind, hline, hstop, fun s hs => by simpa using hbefore s hs, ?_, ?_⟩
  · rw [h.expired, htake]
  · rw [h.toList, hdrop, htake, List.tail_cons]

theorem of_next_eq_none (h : p.Splits now reachable line passed) (hnext : p.next = none) :
    (∀ s ∈ line, s.isEligible now reachable = false) ∧
      p.expired = line.filter (·.isExpired now) ∧
      p.queue.toList = passed ++ line.filter (!·.isExpired now) := by
  have hnone : ∀ s ∈ line, s.isEligible now reachable = false := by
    simpa [List.find?_eq_none] using h.next.symm.trans hnext
  have hall : ∀ s ∈ line, (!s.isEligible now reachable) = true := fun s hs => by rw [hnone s hs]; rfl
  have htake := List.takeWhile_eq_self_iff.mpr hall
  have hdrop := List.dropWhile_eq_nil_iff.mpr hall
  refine ⟨hnone, ?_, ?_⟩
  · rw [h.expired, htake]
  · rw [h.toList, htake, hdrop, List.tail_nil, List.nil_append]

theorem perm (h : p.Splits now reachable line passed) :
    (p.next.toList ++ p.expired ++ p.queue.toList).Perm (line ++ passed) := by
  refine List.perm_iff_count.mpr fun s => ?_
  cases hnext : p.next with
  | none =>
    obtain ⟨-, hexpired, hleft⟩ := h.of_next_eq_none hnext
    have hline := (List.filter_append_perm (·.isExpired now) line).count_eq s
    simp only [List.count_append] at hline
    simp only [hexpired, hleft, Option.toList_none, List.count_append, List.count_nil]
    omega
  | some r =>
    obtain ⟨before, behind, hline, -, -, hexpired, hleft⟩ := h.of_next_eq_some hnext
    have hbefore := (List.filter_append_perm (·.isExpired now) before).count_eq s
    simp only [List.count_append] at hbefore
    simp only [hexpired, hleft, hline, Option.toList_some, List.count_append, List.count_cons,
      List.count_nil]
    omega

/-- Each refresh in line stays, is the one to do next, or is dropped as expired. -/
theorem mem_of_mem (h : p.Splits now reachable line passed) (hr : r ∈ line) :
    r ∈ p.queue.toList ∨ p.next = some r ∨ r ∈ p.expired := by
  have hall := h.perm.mem_iff.mpr (List.mem_append_left passed hr)
  simp only [List.mem_append, Option.mem_toList] at hall
  tauto

private theorem cons_expired (h : p.Splits now reachable line passed) (hr : r.isExpired now = true) :
    Splits { p with expired := r :: p.expired } now reachable (r :: line) passed := by
  have hpass : r.isEligible now reachable = false := by simp [Refresh.isEligible, hr]
  refine ⟨?_, ?_, h.sound, ?_⟩
  · rw [List.find?_cons_of_neg (by simp [hpass])]
    exact h.next
  · simp only [List.takeWhile_cons, hpass, Bool.not_false, if_true, List.filter_cons, hr]
    rw [h.expired]
  · simp only [List.dropWhile_cons, List.takeWhile_cons, hpass, Bool.not_false, if_true,
      List.filter_cons, hr, Bool.not_true]
    exact h.toList

private theorem cons_waiting (h : p.Splits now reachable line (passed ++ [r]))
    (hr : r.isExpired now = false) (hpass : r.isEligible now reachable = false) :
    p.Splits now reachable (r :: line) passed := by
  refine ⟨?_, ?_, h.sound, ?_⟩
  · rw [List.find?_cons_of_neg (by simp [hpass])]
    exact h.next
  · simp only [List.takeWhile_cons, hpass, Bool.not_false, if_true, List.filter_cons, hr]
    exact h.expired
  · simp only [List.dropWhile_cons, List.takeWhile_cons, hpass, Bool.not_false, if_true,
      List.filter_cons, hr]
    rw [h.toList]
    simp

end Popped.Splits

namespace RefreshQueue

variable {q : RefreshQueue} {key : PollKey} {r : Refresh}

private theorem splits_popFrom (now : Instant) (reachable : GuildId → Bool) (order : List PollKey)
    {skipped : List PollKey} {entries : Keyed PollKey Refresh}
    (h : Sound ⟨order ++ skipped, entries⟩) :
    (popFrom now reachable skipped order entries).Splits now reachable
      (order.filterMap entries.get?) (skipped.filterMap entries.get?) := by
  induction order generalizing skipped entries with
  | nil => exact ⟨rfl, rfl, h, by simp [popFrom, toList]⟩
  | cons key rest ih =>
    have hfirst : key ∈ key :: rest ++ skipped := List.mem_cons_self
    obtain ⟨r, hr⟩ := h.get?_of_mem hfirst
    have hkey : r.key = key := h.key_eq key r hr
    have hout : key ∉ rest ++ skipped := (List.nodup_cons.mp h.nodup).1
    have hrest := filterMap_erase entries fun hk => hout (List.mem_append_left _ hk)
    have hskipped := filterMap_erase entries fun hk => hout (List.mem_append_right _ hk)
    rw [List.filterMap_cons, hr]
    simp only [popFrom, hr]
    split
    · next hexpired =>
      have hpass := ih h.erase
      rw [hrest, hskipped] at hpass
      exact hpass.cons_expired hexpired
    · next hexpired =>
      split
      · -- The pass ends here; those behind come before those that were passed over.
        next hdue =>
        have hstop : r.isEligible now reachable = true := by
          simpa [Refresh.isEligible, hexpired, hkey] using hdue
        refine ⟨?_, ?_, h.erase, ?_⟩
        · simp [hstop]
        · simp [hstop]
        · simp only [List.dropWhile_cons, List.takeWhile_cons, hstop]
          simp only [toList, List.filterMap_append, hrest, hskipped]
          simp
      · next hdue =>
        have hwaits : r.isEligible now reachable = false := by
          simpa [Refresh.isEligible, hexpired, hkey] using hdue
        have hperm : (rest ++ (skipped ++ [key])).Perm (key :: rest ++ skipped) := by
          rw [← List.append_assoc]
          exact List.perm_append_singleton key (rest ++ skipped)
        have hpass := ih (h.of_perm hperm)
        rw [List.filterMap_append, List.filterMap_cons, hr] at hpass
        exact hpass.cons_waiting (by simpa using hexpired) hwaits

/-- A pass stops at the first refresh that is due, not expired and of a reachable guild. It drops the
expired ones before it and puts the others before it behind all the rest. -/
theorem splits_popEligible (h : q.Sound) (now : Instant) (reachable : GuildId → Bool) :
    (q.popEligible now reachable).Splits now reachable q.toList [] := by
  have hall : Sound ⟨q.order ++ [], q.entries⟩ := by rwa [List.append_nil]
  exact splits_popFrom now reachable q.order hall

/-- For every sound queue, every instant and all guilds that can be reached, a pass returns the first
refresh in line that has not expired, is due and is of a reachable guild, and none just if there is no such
refresh. Expired ones in front of it are dropped, be their guilds reachable or not; the others in front of
it go behind all the rest. Nothing else happens to the line. -/
theorem popEligible_splits_line (hq : q.Sound) (now : Instant) (reachable : GuildId → Bool) :
    let p := q.popEligible now reachable
    let eligible (s : Refresh) : Prop := ¬ s.timeout < now ∧ s.nextTry ≤ now ∧ reachable s.key.guild = true
    (match p.next with
      | some r => ∃ before behind, q.toList = before ++ r :: behind ∧ eligible r ∧
          (∀ s ∈ before, ¬ eligible s) ∧
          p.expired = before.filter (·.timeout < now) ∧
          p.queue.toList = behind ++ before.filter (¬ ·.timeout < now)
      | none => p.expired = q.toList.filter (·.timeout < now) ∧
          p.queue.toList = q.toList.filter (¬ ·.timeout < now)) ∧
      (p.next = none ↔ ∀ s ∈ q.toList, ¬ eligible s) ∧
      (p.next.toList ++ p.expired ++ p.queue.toList).Perm q.toList ∧
      p.queue.Sound := by
  intro p eligible
  have hsplits : p.Splits now reachable q.toList [] := splits_popEligible hq now reachable
  have hperm := hsplits.perm
  rw [List.append_nil] at hperm
  have heligible : ∀ s : Refresh, s.isEligible now reachable = true ↔ eligible s := fun s => by
    simp [Refresh.isEligible, Refresh.isExpired, Refresh.isDue, eligible, and_assoc]
  have hexpired : ∀ l : List Refresh, l.filter (!·.isExpired now) = l.filter (¬ ·.timeout < now) :=
    fun l => List.filter_congr fun s _ => by simp [Refresh.isExpired]
  refine ⟨?_, ?_, hperm, hsplits.sound⟩
  · cases hnext : p.next with
    | none =>
      obtain ⟨-, hdropped, hleft⟩ := hsplits.of_next_eq_none hnext
      exact ⟨hdropped, by rw [hleft, hexpired, List.nil_append]⟩
    | some r =>
      obtain ⟨before, behind, hline, hr, hbefore, hdropped, hleft⟩ := hsplits.of_next_eq_some hnext
      refine ⟨before, behind, hline, (heligible r).mp hr, fun s hs => ?_, hdropped, ?_⟩
      · rw [← heligible, hbefore s hs]
        exact Bool.false_ne_true
      · rw [hleft, hexpired, List.append_nil]
  · rw [hsplits.next, List.find?_eq_none]
    exact forall₂_congr fun s _ => not_congr (heligible s)

/-- A line of seven. In front of the fifth, which is returned, stand one that has expired in a guild out
of reach, one that is not due, one out of reach and another expired one. The expired one behind stays. -/
theorem popEligible_splits_line_of_seven :
    let now : Instant := ⟨0, 0, by decide, by decide, by decide⟩
    let expired (key : PollKey) : Refresh := ⟨key, .earliest, .earliest, 0⟩
    let waiting (key : PollKey) : Refresh := ⟨key, .latest, .latest, 0⟩
    let due (key : PollKey) : Refresh := ⟨key, .latest, .earliest, 0⟩
    let line := [expired ⟨2, 1⟩, waiting ⟨1, 2⟩, due ⟨2, 3⟩, expired ⟨1, 4⟩, due ⟨1, 5⟩, expired ⟨1, 6⟩,
      due ⟨1, 7⟩]
    let q := line.foldl (fun q r => (q.upsert r).2) empty
    let p := q.popEligible now (· == 1)
    q.Sound ∧ q.toList = line ∧ p.next = some (due ⟨1, 5⟩) ∧
      p.expired = [expired ⟨2, 1⟩, expired ⟨1, 4⟩] ∧
      p.queue.toList = [expired ⟨1, 6⟩, due ⟨1, 7⟩, waiting ⟨1, 2⟩, due ⟨2, 3⟩] ∧
      (p.next.toList ++ p.expired ++ p.queue.toList).Perm q.toList := by
  intro now expired waiting due line q p
  have hq : q.Sound := by
    refine List.foldlRecOn line _ sound_empty fun q hq r _ => sound_upsert hq r
  obtain ⟨-, -, hperm, -⟩ := popEligible_splits_line hq now (· == 1)
  exact ⟨hq, by decide +kernel, by decide +kernel, by decide +kernel, by decide +kernel, hperm⟩

end RefreshQueue
end PollKeeper
