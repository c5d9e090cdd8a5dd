import PollKeeper.Lock.Basic

/-!
# Lines before locks

What each operation does to the lock of a guild, said about its tickets: that of the holder, then those
in line. A lock that is free has nobody in line, so the tickets tell all about it.
-/

namespace PollKeeper

namespace Lock

variable {l : Lock} {ticket : Nat}

def tickets (l : Lock) : List Nat := l.holder.toList ++ l.waiters

/-- Nobody stands in line for a lock that is free. -/
def Orderly (l : Lock) : Prop := l.holder = none → l.waiters = []

theorem orderly_free : free.Orderly := fun _ => rfl

theorem holder_eq (h : l.Orderly) : l.holder = l.tickets.head? := by
  obtain ⟨_ | holder, waiters⟩ := l
  · obtain rfl : waiters = [] := h rfl
    rfl
  · rfl

theorem waiters_eq (h : l.Orderly) : l.waiters = l.tickets.tail := by
  obtain ⟨_ | holder, waiters⟩ := l
  · obtain rfl : waiters = [] := h rfl
    rfl
  · rfl

theorem tickets_eq_nil_iff : l.tickets = [] ↔ l = free := by
  obtain ⟨_ | holder, waiters⟩ := l <;> simp [tickets, free]

theorem tickets_join (l : Lock) (ticket : Nat) : (l.join ticket).tickets = l.tickets ++ [ticket] := by
  simp only [join]
  split
  · next h =>
    rw [Option.isNone_iff_eq_none, List.isEmpty_iff] at h
    simp [tickets, h.1, h.2]
  · simp [tickets]

theorem orderly_join (h : l.Orderly) (ticket : Nat) : (l.join ticket).Orderly := by
  simp only [join]
  split
  · nofun
  · next hbusy =>
    intro hfree
    have hidle : l.holder.isNone ∧ l.waiters.isEmpty := by
      rw [show l.holder = none from hfree, h hfree]
      exact ⟨rfl, rfl⟩
    exact absurd hidle hbusy

private theorem orderly_passOn (l : Lock) : l.passOn.Orderly := by
  intro h
  have hnil : l.waiters = [] := List.head?_eq_none_iff.mp h
  rw [passOn, hnil]
  rfl

theorem orderly_release (h : l.Orderly) (ticket : Nat) : (l.release ticket).Orderly := by
  simp only [release]
  split
  · exact l.orderly_passOn
  · exact h

theorem orderly_leave (h : l.Orderly) (ticket : Nat) : (l.leave ticket).Orderly := by
  intro hfree
  rw [leave, h hfree]
  rfl

theorem tickets_release (h : ticket ∉ l.waiters) :
    (l.release ticket).tickets = l.tickets.erase ticket := by
  simp only [release]
  split
  · next hholder =>
    simp only [passOn, tickets, hholder]
    cases l.waiters <;> simp
  · next hholder =>
    have hnew : ticket ∉ l.tickets := by
      simp only [tickets, List.mem_append, Option.mem_toList, not_or]
      exact ⟨hholder, h⟩
    exact (List.erase_of_not_mem hnew).symm

theorem tickets_leave_release (h : l.tickets.Nodup) :
    ((l.leave ticket).release ticket).tickets = l.tickets.erase ticket := by
  have hline : l.waiters.Nodup := (List.nodup_append.mp h).2.1
  rw [tickets_release]
  · by_cases hholder : l.holder = some ticket
    · have hnew : ticket ∉ l.waiters := by
        rw [tickets, hholder] at h
        exact (List.nodup_cons.mp h).1
      rw [leave, List.erase_of_not_mem hnew]
    · have hnew : ticket ∉ l.holder.toList := by simpa using hholder
      have herase : (l.leave ticket).tickets = l.tickets.erase ticket :=
        (List.erase_append_right _ hnew).symm
      rw [herase]
      exact List.erase_of_not_mem fun hmem => (h.mem_erase_iff.mp hmem).1 rfl
  · exact fun hmem => (hline.mem_erase_iff.mp hmem).1 rfl

end Lock

namespace Locks

variable {l : Locks} {h : Handle} {guild : GuildId}

theorem lockOf_setLock (l : Locks) (guild other : GuildId) (lock : Lock) :
    (l.setLock guild lock).lockOf other = if other = guild then lock else l.lockOf other := by
  simp only [lockOf, setLock, Keyed.get?_set]
  split <;> rfl

theorem lockOf_request (l : Locks) (guild other : GuildId) :
    (l.request guild).2.lockOf other =
      if other = guild then (l.lockOf guild).join l.issued else l.lockOf other :=
  l.lockOf_setLock guild other _

theorem lockOf_giveUp (l : Locks) (h : Handle) (other : GuildId) :
    (l.giveUp h).lockOf other =
      if other = h.guild then (l.lockOf h.guild).leave h.ticket else l.lockOf other := by
  simp only [giveUp]
  split
  · exact l.lockOf_setLock h.guild other _
  · next hout =>
    have hsame : (l.lockOf h.guild).leave h.ticket = l.lockOf h.guild := by
      have hnew : h.ticket ∉ (l.lockOf h.guild).waiters := by simpa [isWaiting] using hout
      rw [Lock.leave, List.erase_of_not_mem hnew]
    split
    · next he => rw [he, hsame]
    · rfl

theorem lockOf_release (l : Locks) (h : Handle) (other : GuildId) :
    (l.release h).lockOf other =
      if other = h.guild then (l.lockOf h.guild).release h.ticket else l.lockOf other := by
  simp only [release]
  split
  · exact l.lockOf_setLock h.guild other _
  · next hout =>
    have hsame : (l.lockOf h.guild).release h.ticket = l.lockOf h.guild :=
      if_neg (by simpa [isHeld] using hout)
    split
    · next he => rw [he, hsame]
    · rfl

theorem issued_giveUp (l : Locks) (h : Handle) : (l.giveUp h).issued = l.issued := by
  simp only [giveUp]
  split <;> rfl

theorem issued_release (l : Locks) (h : Handle) : (l.release h).issued = l.issued := by
  simp only [release]
  split <;> rfl

theorem lockOf_pruneIdle (l : Locks) (guild : GuildId) :
    l.pruneIdle.2.lockOf guild = l.lockOf guild := by
  simp only [lockOf, pruneIdle, Keyed.get?_filter]
  cases l.entries.get? guild with
  | none => rfl
  | some lock =>
    simp only [Option.filter, decide_eq_true_eq]
    split
    · rfl
    · next hidle =>
      have hnone : lock.tickets = [] := by
        refine List.eq_nil_of_length_eq_zero ?_
        rw [Lock.tickets, List.length_append]
        exact Decidable.not_not.mp hidle
      exact (Lock.tickets_eq_nil_iff.mp hnone).symm

/-- A lock is obtained at once just if nobody holds it or waits for it. Otherwise only a ticket is gone. -/
theorem acquire_cases (hlock : (l.lockOf guild).Orderly)
    (hissued : ∀ ticket ∈ (l.lockOf guild).tickets, ticket < l.issued) :
    if l.lockOf guild = .free then
      ∃ locks, l.acquire guild = (.ok ⟨guild, l.issued⟩, locks) ∧ locks.issued = l.issued + 1 ∧
        ∀ other, locks.lockOf other =
          if other = guild then ⟨some l.issued, []⟩ else l.lockOf other
    else
      ∃ locks, l.acquire guild = (.error (.timedOut guild), locks) ∧ locks.issued = l.issued + 1 ∧
        ∀ other, locks.lockOf other = l.lockOf other := by
  have hrequest := l.lockOf_request guild
  have hheld : (l.request guild).2.isHeld ⟨guild, l.issued⟩ =
      decide (((l.lockOf guild).join l.issued).holder = some l.issued) := by
    rw [isHeld, hrequest, if_pos rfl]
  have hacquire : l.acquire guild = if (l.request guild).2.isHeld ⟨guild, l.issued⟩
      then (.ok ⟨guild, l.issued⟩, (l.request guild).2)
      else (.error (.timedOut guild), (l.request guild).2.giveUp ⟨guild, l.issued⟩) := rfl
  have hholder := Lock.holder_eq (Lock.orderly_join hlock l.issued)
  rw [Lock.tickets_join] at hholder
  split
  · next hfree =>
    rw [hfree] at hheld hrequest
    have hgranted : (l.request guild).2.isHeld ⟨guild, l.issued⟩ = true := by
      rw [hheld]
      simp [Lock.join, Lock.free]
    exact ⟨_, hacquire.trans (if_pos hgranted), rfl, hrequest⟩
  · next hbusy =>
    have hne : (l.lockOf guild).tickets ≠ [] := fun hnil => hbusy (Lock.tickets_eq_nil_iff.mp hnil)
    obtain ⟨first, rest, htickets⟩ := List.exists_cons_of_ne_nil hne
    have hfirst : first < l.issued := hissued first (htickets ▸ List.mem_cons_self)
    have hnot : (l.request guild).2.isHeld ⟨guild, l.issued⟩ = false := by
      rw [hheld, hholder, htickets]
      simpa using Nat.ne_of_lt hfirst
    refine ⟨_, hacquire.trans (if_neg (by simp [hnot])), issued_giveUp _ _, fun other => ?_⟩
    rw [lockOf_giveUp, hrequest guild, if_pos rfl, hrequest other]
    split
    · next he =>
      -- The newcomer was the last in line.
      have hwaiters : l.issued ∉ (l.lockOf guild).waiters := fun hmem =>
        Nat.lt_irrefl _ (hissued _ (List.mem_append_right _ hmem))
      have hjoin : (l.lockOf guild).join l.issued =
          { l.lockOf guild with waiters := (l.lockOf guild).waiters ++ [l.issued] } := by
        refine if_neg fun hidle => hbusy ?_
        rw [Option.isNone_iff_eq_none, List.isEmpty_iff] at hidle
        exact Lock.tickets_eq_nil_iff.mp (by rw [Lock.tickets, hidle.1, hidle.2]; rfl)
      rw [hjoin, Lock.leave, List.erase_append_right _ hwaiters, he]
      simp
    · rfl

/-- Nobody stands in line for a lock that is free, and every ticket in line was given out. -/
structure Proper (l : Locks) : Prop where
  orderly : ∀ guild, (l.lockOf guild).Orderly
  issued : ∀ guild, ∀ ticket ∈ (l.lockOf guild).tickets, ticket < l.issued

namespace Proper

theorem empty : Locks.empty.Proper := ⟨fun _ => Lock.orderly_free, nofun⟩

theorem update {l' : Locks} {lock : Lock} (hl : l.Proper)
    (hlocks : ∀ other, l'.lockOf other = if other = guild then lock else l.lockOf other)
    (hissued : l.issued ≤ l'.issued) (horderly : lock.Orderly)
    (htickets : ∀ ticket ∈ lock.tickets, ticket < l'.issued) : l'.Proper := by
  refine ⟨fun other => ?_, fun other ticket hticket => ?_⟩
  · rw [hlocks]
    split
    · exact horderly
    · exact hl.orderly other
  · rw [hlocks] at hticket
    split at hticket
    · exact htickets ticket hticket
    · exact Nat.lt_of_lt_of_le (hl.issued other ticket hticket) hissued

theorem congr {l' : Locks} (hl : l.Proper) (hlocks : ∀ other, l'.lockOf other = l.lockOf other)
    (hissued : l.issued ≤ l'.issued) : l'.Proper := by
  refine ⟨fun other => ?_, fun other ticket hticket => ?_⟩
  · rw [hlocks]
    exact hl.orderly other
  · rw [hlocks] at hticket
    exact Nat.lt_of_lt_of_le (hl.issued other ticket hticket) hissued

theorem request (hl : l.Proper) (guild : GuildId) : (l.request guild).2.Proper := by
  refine hl.update (l.lockOf_request guild) (Nat.le_succ _)
    (Lock.orderly_join (hl.orderly guild) _) fun ticket hticket => ?_
  rw [Lock.tickets_join, List.mem_append, List.mem_singleton] at hticket
  rcases hticket with hold | rfl
  · exact Nat.lt_succ_of_lt (hl.issued guild ticket hold)
  · exact Nat.lt_succ_self _

theorem giveUp (hl : l.Proper) (h : Handle) : (l.giveUp h).Proper := by
  refine hl.update (l.lockOf_giveUp h) (Nat.le_of_eq (issued_giveUp l h).symm)
    (Lock.orderly_leave (hl.orderly h.guild) _) fun ticket hticket => ?_
  rw [issued_giveUp]
  refine hl.issued h.guild ticket ?_
  rcases List.mem_append.mp hticket with hholder | hwaiter
  · exact List.mem_append_left _ hholder
  · exact List.mem_append_right _ (List.mem_of_mem_erase hwaiter)

theorem release (hl : l.Proper) (h : Handle) : (l.release h).Proper := by
  refine hl.update (l.lockOf_release h) (Nat.le_of_eq (issued_release l h).symm)
    (Lock.orderly_release (hl.orderly h.guild) _) fun ticket hticket => ?_
  rw [issued_release]
  refine hl.issued h.guild ticket ?_
  simp only [Lock.release] at hticket
  split at hticket
  · refine List.mem_append_right _ ?_
    cases hwaiters : (l.lockOf h.guild).waiters with
    | nil =>
      rw [Lock.passOn, hwaiters] at hticket
      cases hticket
    | cons first rest =>
      rw [Lock.passOn, hwaiters] at hticket
      exact hticket
  · exact hticket

theorem acquire (hl : l.Proper) (guild : GuildId) : (l.acquire guild).2.Proper := by
  simp only [Locks.acquire]
  split
  · exact hl.request guild
  · exact (hl.request guild).giveUp _

theorem acquireUnless (hl : l.Proper) (cancelled : Bool) (guild : GuildId) :
    (l.acquireUnless cancelled guild).2.Proper := by
  simp only [Locks.acquireUnless]
  split
  · exact hl
  · exact hl.acquire guild

theorem pruneIdle (hl : l.Proper) : l.pruneIdle.2.Proper := hl.congr l.lockOf_pruneIdle (Nat.le_refl _)

end Proper

theorem isHeld_congr {l' : Locks} (hlock : l'.lockOf h.guild = l.lockOf h.guild) :
    l'.isHeld h = l.isHeld h := by
  simp only [isHeld, hlock]

theorem isHeld_of_holder {l' : Locks} (hheld : l.isHeld h)
    (hholder : (l.lockOf h.guild).holder = some h.ticket →
      (l'.lockOf h.guild).holder = some h.ticket) : l'.isHeld h = true :=
  decide_eq_true (hholder (of_decide_eq_true hheld))

theorem isHeld_request (hheld : l.isHeld h) (guild : GuildId) : (l.request guild).2.isHeld h = true := by
  refine isHeld_of_holder hheld fun hholder => ?_
  rw [lockOf_request]
  split
  · next he =>
    rw [← he, Lock.join, if_neg (by simp [hholder])]
    exact hholder
  · exact hholder

theorem isHeld_giveUp (hheld : l.isHeld h) (other : Handle) : (l.giveUp other).isHeld h = true := by
  refine isHeld_of_holder hheld fun hholder => ?_
  rw [lockOf_giveUp]
  split
  · next he =>
    rw [← he]
    exact hholder
  · exact hholder

theorem isHeld_release (hheld : l.isHeld h) {other : Handle} (hother : other ≠ h) :
    (l.release other).isHeld h = true := by
  refine isHeld_of_holder hheld fun hholder => ?_
  rw [lockOf_release]
  split
  · next he =>
    have hticket : (l.lockOf h.guild).holder ≠ some other.ticket := by
      obtain ⟨guild, ticket⟩ := h
      obtain ⟨guild', ticket'⟩ := other
      intro hsame
      cases he
      cases hholder.symm.trans hsame
      exact hother rfl
    rw [← he, Lock.release, if_neg hticket]
    exact hholder
  · exact hholder

theorem isHeld_acquire (hheld : l.isHeld h) (guild : GuildId) : (l.acquire guild).2.isHeld h = true := by
  simp only [acquire]
  split
  · exact isHeld_request hheld guild
  · exact isHeld_giveUp (isHeld_request hheld guild) _

theorem isHeld_acquireUnless (hheld : l.isHeld h) (cancelled : Bool) (guild : GuildId) :
    (l.acquireUnless cancelled guild).2.isHeld h = true := by
  simp only [acquireUnless]
  split
  · exact hheld
  · exact isHeld_acquire hheld guild

/-- A lock that is obtained at once and given back is as free as before; one that is not free is not
obtained. -/
theorem Proper.acquire_release (hl : l.Proper) (guild : GuildId) :
    if l.lockOf guild = .free then
      ∃ h locks, l.acquire guild = (.ok h, locks) ∧ h.guild = guild ∧
        (∀ other, (locks.release h).lockOf other = l.lockOf other) ∧
        (locks.release h).issued = l.issued + 1
    else
      ∃ locks, l.acquire guild = (.error (.timedOut guild), locks) ∧
        (∀ other, locks.lockOf other = l.lockOf other) ∧ locks.issued = l.issued + 1 := by
  have hcases := acquire_cases (hl.orderly guild) (hl.issued guild)
  split
  · next hfree =>
    rw [if_pos hfree] at hcases
    obtain ⟨locks, hacquire, hissued, hlocks⟩ := hcases
    refine ⟨_, locks, hacquire, rfl, fun other => ?_, (issued_release _ _).trans hissued⟩
    rw [lockOf_release, hlocks guild, if_pos rfl, hlocks other]
    split
    · next he =>
      rw [he, hfree]
      exact if_pos rfl
    · rfl
  · next hbusy =>
    rw [if_neg hbusy] at hcases
    obtain ⟨locks, hacquire, hissued, hlocks⟩ := hcases
    exact ⟨locks, hacquire, hlocks, hissued⟩

end Locks
end PollKeeper
