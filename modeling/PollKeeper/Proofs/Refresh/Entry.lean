import PollKeeper.Proofs.Refresh.Outcome

/-!
# The refresh of one poll in line

What requests, passes over the line and failures make of the refresh of a single poll. A request for a
poll in line leaves its attempts and its next try alone. That holds for the request with which a failed
refresh comes back, too.
-/

namespace PollKeeper

open Time

theorem Time.Instant.later_later (a b : Instant) : (a.later b).later b = a.later b := by
  simp only [later]
  split
  · exact ite_self b
  · rfl

namespace Refresh

/-- The same refresh, which may only have got more time. -/
structure Stays (r r' : Refresh) : Prop where
  attempts : r'.attempts = r.attempts
  nextTry : r'.nextTry = r.nextTry

theorem Stays.refl (r : Refresh) : r.Stays r := ⟨rfl, rfl⟩

theorem Stays.trans {r r' r'' : Refresh} (h : r.Stays r') (h' : r'.Stays r'') : r.Stays r'' :=
  ⟨h'.attempts.trans h.attempts, h'.nextTry.trans h.nextTry⟩

/-- The refresh as it is tried again after one more failure. -/
def again (r : Refresh) (nextTry : Instant) : Refresh :=
  { r with attempts := r.attempts + 1, nextTry }

end Refresh

namespace RefreshQueue

variable {q : RefreshQueue} {key : PollKey} {r : Refresh}

def get? (q : RefreshQueue) (key : PollKey) : Option Refresh := q.entries.get? key

theorem Sound.get?_eq_some (h : q.Sound) : q.get? key = some r ↔ r ∈ q.toList ∧ r.key = key := by
  constructor
  · intro hget
    obtain rfl := h.key_eq key r hget
    exact ⟨h.mem_toList.mpr hget, rfl⟩
  · rintro ⟨hmem, rfl⟩
    exact h.mem_toList.mp hmem

theorem Sound.get?_eq_none (h : q.Sound) : q.get? key = none ↔ key ∉ q.keys := by
  rw [h.keys_eq, h.mem_order, Option.not_isSome_iff_eq_none]
  rfl

theorem get?_upsert (q : RefreshQueue) (r : Refresh) (key : PollKey) :
    (q.upsert r).2.get? key =
      if key = r.key then
        some (((q.get? key).map fun old =>
          { old with timeout := old.timeout.later r.timeout }).getD r)
      else q.get? key := by
  simp only [upsert, get?]
  split
  · next old hold =>
    rw [Keyed.get?_set]
    split
    · next hkey =>
      rw [hkey, hold]
      rfl
    · rfl
  · next hnone =>
    rw [Keyed.get?_set]
    split
    · next hkey =>
      rw [hkey, hnone]
      rfl
    · rfl

theorem get?_upsert_of_none (h : q.get? r.key = none) : (q.upsert r).2.get? r.key = some r := by
  rw [get?_upsert, if_pos rfl, h]
  rfl

theorem get?_upsert_again (h : q.get? r.key = none) (nextTry : Instant) :
    (q.upsert (r.again nextTry)).2.get? r.key = some (r.again nextTry) :=
  get?_upsert_of_none (r := r.again nextTry) h

/-- A refresh in line stays there, whatever is asked for. -/
theorem stays_upsert (s : Refresh) (h : q.get? key = some r) :
    ∃ r', (q.upsert s).2.get? key = some r' ∧ r.Stays r' := by
  rw [get?_upsert, h]
  split
  · exact ⟨_, rfl, rfl, rfl⟩
  · exact ⟨r, rfl, .refl r⟩

/-- The line after refreshes of some polls were asked for at an instant. -/
def askAll (q : RefreshQueue) (timeout now : Instant) (keys : List PollKey) : RefreshQueue :=
  keys.foldl (fun q key => (q.upsert ⟨key, timeout, now, 0⟩).2) q

theorem askAll_append (q : RefreshQueue) (timeout now : Instant) (keys more : List PollKey) :
    q.askAll timeout now (keys ++ more) = (q.askAll timeout now keys).askAll timeout now more :=
  List.foldl_append

theorem sound_askAll (h : q.Sound) (timeout now : Instant) (keys : List PollKey) :
    (q.askAll timeout now keys).Sound := by
  induction keys generalizing q with
  | nil => exact h
  | cons first rest ih => exact ih (sound_upsert h _)

/-- Asking for a poll in line again and again at the same instant is asking once. -/
theorem get?_askAll (timeout now : Instant) (keys : List PollKey) (h : q.get? key = some r) :
    (q.askAll timeout now keys).get? key =
      some (if key ∈ keys then { r with timeout := r.timeout.later timeout } else r) := by
  induction keys generalizing q r with
  | nil => exact h
  | cons first rest ih =>
    have hfirst := get?_upsert q ⟨first, timeout, now, 0⟩ key
    rw [h] at hfirst
    by_cases hkey : key = first
    · rw [if_pos hkey] at hfirst
      have hrest : (q.askAll timeout now (first :: rest)).get? key = _ := ih hfirst
      rw [hrest, if_pos (List.mem_cons.mpr (.inl hkey))]
      split
      · exact congrArg (fun t => some { r with timeout := t }) (r.timeout.later_later timeout)
      · rfl
    · rw [if_neg hkey] at hfirst
      have hrest : (q.askAll timeout now (first :: rest)).get? key = _ := ih hfirst
      rw [hrest]
      simp only [List.mem_cons, hkey, false_or]

theorem stays_askAll (timeout now : Instant) (keys : List PollKey) (h : q.get? key = some r) :
    ∃ r', (q.askAll timeout now keys).get? key = some r' ∧ r.Stays r' := by
  refine ⟨_, get?_askAll timeout now keys h, ?_⟩
  split
  · exact ⟨rfl, rfl⟩
  · exact .refl r

/-- What comes into line is asked for and has not failed yet. -/
theorem new_askAll {timeout now : Instant} {keys : List PollKey} (h : q.get? key = none)
    (hr : (q.askAll timeout now keys).get? key = some r) :
    key ∈ keys ∧ r.nextTry = now ∧ r.attempts = 0 := by
  induction keys generalizing q with
  | nil => cases h.symm.trans hr
  | cons first rest ih =>
    by_cases hkey : key = first
    · subst hkey
      have hfirst : (q.upsert ⟨key, timeout, now, 0⟩).2.get? key = some ⟨key, timeout, now, 0⟩ :=
        get?_upsert_of_none h
      obtain ⟨r', hr', hstays⟩ := stays_askAll timeout now rest hfirst
      obtain rfl := Option.some.inj (hr'.symm.trans hr)
      exact ⟨List.mem_cons_self, hstays.nextTry, hstays.attempts⟩
    · have hfirst : (q.upsert ⟨first, timeout, now, 0⟩).2.get? key = none := by
        rw [get?_upsert, if_neg hkey, h]
      obtain ⟨hmem, hnew⟩ := ih hfirst hr
      exact ⟨List.mem_cons_of_mem _ hmem, hnew⟩

theorem mem_keys_askAll (h : q.Sound) {timeout now : Instant} {keys : List PollKey} :
    key ∈ (q.askAll timeout now keys).keys ↔ key ∈ q.keys ∨ key ∈ keys := by
  induction keys generalizing q with
  | nil => simp [askAll]
  | cons first rest ih =>
    have hrest : key ∈ (q.askAll timeout now (first :: rest)).keys ↔ _ ∨ key ∈ rest :=
      ih (sound_upsert h _)
    rw [hrest, mem_keys_upsert h, List.mem_cons, or_assoc]

theorem exists_get?_askAll (h : q.Sound) {timeout now : Instant} {keys : List PollKey}
    (hkey : key ∈ keys) : ∃ r, (q.askAll timeout now keys).get? key = some r := by
  refine Option.ne_none_iff_exists'.mp fun hnone => ?_
  have hline := (sound_askAll h timeout now keys).get?_eq_none.mp hnone
  exact hline ((mem_keys_askAll h).mpr (.inr hkey))

theorem get?_of_popEligible (h : q.Sound) {now : Instant} {reachable : GuildId → Bool}
    (hr : (q.popEligible now reachable).queue.get? key = some r) : q.get? key = some r := by
  have hsplits := splits_popEligible h now reachable
  obtain ⟨hmem, hkey⟩ := hsplits.sound.get?_eq_some.mp hr
  have hline := hsplits.perm.mem_iff.mp (List.mem_append_right _ hmem)
  rw [List.append_nil] at hline
  exact h.get?_eq_some.mpr ⟨hline, hkey⟩

/-- The refresh that is taken out was in line, not expired and due, and its guild is reachable. Nothing
of its poll stays in line. -/
theorem popEligible_eq_some (h : q.Sound) {now : Instant} {reachable : GuildId → Bool}
    (hr : (q.popEligible now reachable).next = some r) :
    q.get? r.key = some r ∧ (q.popEligible now reachable).queue.get? r.key = none ∧
      ¬ r.timeout < now ∧ r.nextTry ≤ now ∧ reachable r.key.guild = true := by
  have hsplits := splits_popEligible h now reachable
  obtain ⟨before, behind, hline, hstop, -⟩ := hsplits.of_next_eq_some hr
  have hmem : r ∈ q.toList := by
    rw [hline]
    exact List.mem_append_right _ List.mem_cons_self
  refine ⟨h.get?_eq_some.mpr ⟨hmem, rfl⟩, ?_, ?_⟩
  · -- What a pass takes out and what it leaves are of different polls, as all in line are.
    have hnodup : ((r :: ((q.popEligible now reachable).expired ++
        (q.popEligible now reachable).queue.toList)).map (·.key)).Nodup := by
      have hperm := hsplits.perm.map (·.key)
      rw [hr, List.append_nil] at hperm
      exact hperm.nodup_iff.mpr h.nodup_keys
    refine hsplits.sound.get?_eq_none.mpr fun hkey => (List.nodup_cons.mp hnodup).1 ?_
    rw [List.map_append]
    exact List.mem_append_right _ hkey
  · simpa [Refresh.isEligible, Refresh.isExpired, Refresh.isDue, and_assoc] using hstop

end RefreshQueue

namespace Scheduler

variable {s : Scheduler} {r : Refresh} {now : Instant}

theorem enqueueAll_eq_askAll (s : Scheduler) (now : Instant) (keys : List PollKey) :
    s.enqueueAll now keys =
      { s with queue := s.queue.askAll (now.plus s.config.updateTimeout) now keys } := by
  induction keys generalizing s with
  | nil => rfl
  | cons key rest ih => exact ih (s.enqueue now key).2

theorem config_take (s : Scheduler) (now : Instant) : (s.take now).2.config = s.config := by
  simp only [take]
  cases (s.queue.popEligible now s.isReachable).next <;> rfl

/-- How a tick ends that has failed, and the line that it leaves. -/
inductive Settles (s : Scheduler) (now : Instant) (r : Refresh) : TickOutcome → RefreshQueue → Prop where
  | missing : Settles s now r .missing s.queue
  | exhausted (h : s.config.maxTries ≤ r.attempts + 1) :
      Settles s now r (.exhausted (r.attempts + 1)) s.queue
  | retrying (h : r.attempts + 1 < s.config.maxTries) :
      Settles s now r (.retrying (r.attempts + 1))
        (s.queue.upsert (r.again (now.plus s.config.retryPause))).2

theorem settles_settle (s : Scheduler) (now : Instant) (r : Refresh) (e : RefreshError) :
    s.Settles now r (s.settle now r (.error e)).1 (s.settle now r (.error e)).2.queue := by
  simp only [settle]
  split
  · exact .missing
  · simp only [retry]
    split
    · next h => exact .exhausted h
    · next h => exact .retrying (Nat.lt_of_not_le h)

theorem config_settle (s : Scheduler) (now : Instant) (r : Refresh) (result : Except RefreshError Unit) :
    (s.settle now r result).2.config = s.config := by
  simp only [settle, retry]
  split
  · rfl
  · split
    · rfl
    · split <;> rfl

end Scheduler
end PollKeeper
