import PollKeeper.Proofs.Refresh.Merging

/-!
# Nobody starves in line

A refresh that can be done comes closer to the front of the line with every pass that takes out another
one, and no request brings it back. So it is taken out after as many passes as there are places in front
of it, and one more, whatever else comes into line in the meantime.
-/

namespace PollKeeper

open Time

/-- What may happen to a queue of refreshes. -/
inductive QueueEvent where
  | ask (r : Refresh)
  | pass (now : Instant) (reachable : GuildId → Bool)

def QueueEvent.isPass : QueueEvent → Bool
  | ask _ => false
  | pass .. => true

namespace RefreshQueue

variable {q : RefreshQueue} {e : Refresh} {p : Nat}

def react (q : RefreshQueue) : QueueEvent → RefreshQueue
  | .ask r => (q.upsert r).2
  | .pass now reachable => (q.popEligible now reachable).queue

def after (q : RefreshQueue) (events : List QueueEvent) : RefreshQueue := events.foldl react q

/-- What the passes return, one after the other. -/
def returned (q : RefreshQueue) : List QueueEvent → List (Option Refresh)
  | [] => []
  | .ask r :: rest => (q.upsert r).2.returned rest
  | .pass now reachable :: rest =>
    (q.popEligible now reachable).next :: (q.popEligible now reachable).queue.returned rest

/-- At each pass, up to the one that returns it, the refresh of a poll is due, not expired and of a
reachable guild. -/
def EligibleUntilReturned (key : PollKey) (q : RefreshQueue) : List QueueEvent → Prop
  | [] => True
  | .ask r :: rest => (q.upsert r).2.EligibleUntilReturned key rest
  | .pass now reachable :: rest =>
    (∀ r, q.get? key = some r → r.isEligible now reachable = true) ∧
      ((q.popEligible now reachable).next.map (·.key) ≠ some key →
        (q.popEligible now reachable).queue.EligibleUntilReturned key rest)

private theorem sound_react (h : q.Sound) (event : QueueEvent) : (q.react event).Sound := by
  cases event with
  | ask r => exact sound_upsert h r
  | pass now reachable => exact (splits_popEligible h now reachable).sound

private theorem sound_after (h : q.Sound) (events : List QueueEvent) : (q.after events).Sound := by
  induction events generalizing q with
  | nil => exact h
  | cons event rest ih => exact ih (sound_react h event)

theorem place_upsert (h : q.Sound) (r : Refresh) (hplace : q.toList[p]? = some e) :
    ∃ e', (q.upsert r).2.toList[p]? = some e' ∧ e.Lasts e' := by
  rw [toList_upsert h]
  split
  · rw [List.getElem?_map, hplace, Option.map_some]
    refine ⟨_, rfl, ?_⟩
    split
    · exact ⟨⟨rfl, rfl⟩, rfl, e.timeout.le_later r.timeout⟩
    · exact .refl e
  · have hbound : p < q.toList.length := (List.getElem?_eq_some_iff.mp hplace).1
    exact ⟨e, (List.getElem?_append_left hbound).trans hplace, .refl e⟩

/-- Where a pass stops that meets a refresh which can be done: there, or at a refresh in front of it, and
then it comes closer to the front. -/
theorem place_popEligible (h : q.Sound) {now : Instant} {reachable : GuildId → Bool}
    (hplace : q.toList[p]? = some e) (heligible : e.isEligible now reachable = true) :
    (q.popEligible now reachable).next = some e ∨
      ∃ r j p', (q.popEligible now reachable).next = some r ∧ q.toList[j]? = some r ∧ j < p ∧
        (q.popEligible now reachable).queue.toList[p']? = some e ∧ p' < p := by
  have hsplits := splits_popEligible h now reachable
  cases hnext : (q.popEligible now reachable).next with
  | none =>
    have hwaits := (hsplits.of_next_eq_none hnext).1 e (List.mem_of_getElem? hplace)
    rw [heligible] at hwaits
    cases hwaits
  | some first =>
    obtain ⟨before, rest, hline, -, hbefore, -, hleft⟩ := hsplits.of_next_eq_some hnext
    rw [hline] at hplace ⊢
    -- None of those that are passed over can be done, so the refresh stands where the pass stops or behind.
    have hpassed : before.length ≤ p := by
      refine Nat.le_of_not_lt fun hlt => ?_
      rw [List.getElem?_append_left hlt] at hplace
      have hwaits := hbefore e (List.mem_of_getElem? hplace)
      rw [heligible] at hwaits
      cases hwaits
    rw [List.getElem?_append_right hpassed] at hplace
    cases hdistance : p - before.length with
    | zero =>
      rw [hdistance] at hplace
      exact .inl hplace
    | succ n =>
      rw [hdistance, List.getElem?_cons_succ] at hplace
      refine .inr ⟨first, before.length, n, rfl, ?_, by omega, ?_, by omega⟩
      · simp
      · have hbound : n < rest.length := (List.getElem?_eq_some_iff.mp hplace).1
        rw [hleft, List.append_nil]
        exact (List.getElem?_append_left hbound).trans hplace

/-- The refresh that a pass returns is not the one that is in line still. -/
theorem key_ne_of_popEligible (h : q.Sound) {now : Instant} {reachable : GuildId → Bool} {r : Refresh}
    (hnext : (q.popEligible now reachable).next = some r)
    (hplace : (q.popEligible now reachable).queue.toList[p]? = some e) : r.key ≠ e.key := by
  intro hkey
  have hsound := (splits_popEligible h now reachable).sound
  have hline : (q.popEligible now reachable).queue.get? e.key = some e :=
    hsound.get?_eq_some.mpr ⟨List.mem_of_getElem? hplace, rfl⟩
  have hgone := (popEligible_eq_some h hnext).2.1
  rw [hkey] at hgone
  cases hgone.symm.trans hline

/-- As long as no pass returns it, a refresh has come closer to the front by as many places at least as
there were passes. -/
theorem place_after (h : q.Sound) {before rest : List QueueEvent} (hplace : q.toList[p]? = some e)
    (heligible : q.EligibleUntilReturned e.key (before ++ rest))
    (hwaits : ∀ r, some r ∈ q.returned before → r.key ≠ e.key) :
    ∃ i e', (q.after before).toList[i]? = some e' ∧ e.Lasts e' ∧
      i + before.countP QueueEvent.isPass ≤ p ∧ (q.after before).EligibleUntilReturned e'.key rest := by
  induction before generalizing q e p with
  | nil => exact ⟨p, e, hplace, .refl e, by simp, heligible⟩
  | cons event before ih =>
    cases event with
    | ask r =>
      obtain ⟨e₁, hplace₁, hfirst⟩ := place_upsert h r hplace
      have heligible₁ : (q.upsert r).2.EligibleUntilReturned e₁.key (before ++ rest) :=
        hfirst.key ▸ heligible
      obtain ⟨i, e', hi, hlasts, hcount, hrest⟩ :=
        ih (sound_upsert h r) hplace₁ heligible₁ fun s hs => hfirst.key ▸ hwaits s hs
      refine ⟨i, e', hi, hfirst.trans hlasts, ?_, hrest⟩
      simpa [List.countP_cons, QueueEvent.isPass] using hcount
    | pass now reachable =>
      obtain ⟨hnow, hlater⟩ := heligible
      have hget : q.get? e.key = some e := h.get?_eq_some.mpr ⟨List.mem_of_getElem? hplace, rfl⟩
      rcases place_popEligible h hplace (hnow e hget) with hnext | ⟨r, j, p', hnext, -, -, hplace', hcloser⟩
      · exact absurd rfl (hwaits e (by simp [returned, hnext]))
      · have hother := key_ne_of_popEligible h hnext hplace'
        have heligible' := hlater (by simpa [hnext] using hother)
        obtain ⟨i, e', hi, hlasts, hcount, hrest⟩ :=
          ih (splits_popEligible h now reachable).sound hplace' heligible'
            fun s hs => hwaits s (by simp [returned, hs])
        refine ⟨i, e', hi, hlasts, ?_, hrest⟩
        simp only [List.countP_cons, QueueEvent.isPass, if_true]
        omega

/-- A refresh that can be done is returned as soon as there were more passes than places in front of it. -/
theorem returned_of_passes (h : q.Sound) {events : List QueueEvent} (hplace : q.toList[p]? = some e)
    (heligible : q.EligibleUntilReturned e.key events) (hpasses : p < events.countP QueueEvent.isPass) :
    ∃ r, some r ∈ (q.returned events).take (p + 1) ∧ e.Lasts r := by
  induction events generalizing q e p with
  | nil => cases hpasses
  | cons event rest ih =>
    cases event with
    | ask r =>
      obtain ⟨e₁, hplace₁, hfirst⟩ := place_upsert h r hplace
      have hpasses₁ : p < rest.countP QueueEvent.isPass := by
        simpa [List.countP_cons, QueueEvent.isPass] using hpasses
      obtain ⟨s, hs, hlasts⟩ := ih (sound_upsert h r) hplace₁ (hfirst.key ▸ heligible) hpasses₁
      exact ⟨s, hs, hfirst.trans hlasts⟩
    | pass now reachable =>
      obtain ⟨hnow, hlater⟩ := heligible
      have hget : q.get? e.key = some e := h.get?_eq_some.mpr ⟨List.mem_of_getElem? hplace, rfl⟩
      rcases place_popEligible h hplace (hnow e hget) with hnext | ⟨r, j, p', hnext, -, -, hplace', hcloser⟩
      · exact ⟨e, by simp [returned, hnext], .refl e⟩
      · have hother := key_ne_of_popEligible h hnext hplace'
        simp only [List.countP_cons, QueueEvent.isPass, if_true] at hpasses
        obtain ⟨s, hs, hlasts⟩ := ih (splits_popEligible h now reachable).sound hplace'
          (hlater (by simpa [hnext] using hother)) (by omega)
        have hmore : ((q.popEligible now reachable).queue.returned rest).take (p' + 1) <+:
            ((q.popEligible now reachable).queue.returned rest).take p :=
          List.take_prefix_take_left (by omega)
        refine ⟨s, ?_, hlasts⟩
        rw [returned, List.take_succ_cons]
        exact List.mem_cons_of_mem _ (hmore.subset hs)

/-- Let a refresh stand at some place in line, and let it be due, not expired and of a reachable guild at
each pass until it is returned, while any other refreshes are asked for, pass over or expire. Then each of
these passes returns a refresh: this one, or one in front of it, and then this one comes closer to the
front. It is returned by one of the first passes, of which there are no more than places up to its own. -/
theorem no_starvation (history events : List QueueEvent)
    (hplace : (empty.after history).toList[p]? = some e)
    (heligible : (empty.after history).EligibleUntilReturned e.key events) :
    let q := empty.after history
    (∀ before now reachable rest, events = before ++ .pass now reachable :: rest →
      (∀ r, some r ∈ q.returned before → r.key ≠ e.key) →
      let popped := (q.after before).popEligible now reachable
      ∃ i e', (q.after before).toList[i]? = some e' ∧ e.Lasts e' ∧
        i + before.countP QueueEvent.isPass ≤ p ∧
        (popped.next = some e' ∨ ∃ r j i', popped.next = some r ∧
          (q.after before).toList[j]? = some r ∧ j < i ∧ popped.queue.toList[i']? = some e' ∧ i' < i)) ∧
    (p < events.countP QueueEvent.isPass →
      ∃ r, some r ∈ (q.returned events).take (p + 1) ∧ e.Lasts r) := by
  intro q
  have hq : q.Sound := sound_after sound_empty history
  refine ⟨fun before now reachable rest hevents hwaits => ?_, returned_of_passes hq hplace heligible⟩
  subst hevents
  obtain ⟨i, e', hi, hlasts, hcount, hnow, -⟩ := place_after hq hplace heligible hwaits
  have hsound : (q.after before).Sound := sound_after hq before
  have hget : (q.after before).get? e'.key = some e' :=
    hsound.get?_eq_some.mpr ⟨List.mem_of_getElem? hi, rfl⟩
  exact ⟨i, e', hi, hlasts, hcount, place_popEligible hsound hi (hnow e' hget)⟩

/-- A refresh that nothing keeps waiting, but the way to the front. -/
def urgent (poll : PollId) : Refresh := ⟨⟨1, poll⟩, .latest, .earliest, 0⟩

/-- Three refreshes stand in line, the first of which must wait. The last one is returned by the second
pass, although others come into line all the time. -/
theorem no_starvation_of_three :
    let waiting : Refresh := { urgent 1 with nextTry := .latest }
    let history : List QueueEvent := [.ask waiting, .ask (urgent 2), .ask (urgent 3)]
    let pass : QueueEvent := .pass .earliest fun _ => true
    let events : List QueueEvent := [.ask (urgent 4), pass, .ask (urgent 5), pass, .ask (urgent 2), pass]
    (empty.after history).toList[2]? = some (urgent 3) ∧
      (empty.after history).EligibleUntilReturned ⟨1, 3⟩ events ∧
      (∃ r, some r ∈ ((empty.after history).returned events).take 3 ∧ (urgent 3).Lasts r) ∧
      ((empty.after history).returned events).map (·.map (·.key.poll)) = [some 2, some 3, some 4] := by
  intro waiting history pass events
  have hplace : (empty.after history).toList[2]? = some (urgent 3) := by decide +kernel
  have heligible : (empty.after history).EligibleUntilReturned ⟨1, 3⟩ events := by
    have hfirst : (empty.after (history ++ [.ask (urgent 4)])).get? ⟨1, 3⟩ = some (urgent 3) := by
      decide +kernel
    have hsecond : (empty.after (history ++ [.ask (urgent 4), pass, .ask (urgent 5)])).get? ⟨1, 3⟩ =
        some (urgent 3) := by decide +kernel
    refine ⟨fun r hr => ?_, fun _ => ⟨fun r hr => ?_, fun hother => absurd ?_ hother⟩⟩
    · cases hfirst.symm.trans hr
      decide +kernel
    · cases hsecond.symm.trans hr
      decide +kernel
    · decide +kernel
  obtain ⟨-, hreturned⟩ := no_starvation history events hplace heligible
  exact ⟨hplace, heligible, hreturned (by decide), by decide +kernel⟩

end RefreshQueue
end PollKeeper
