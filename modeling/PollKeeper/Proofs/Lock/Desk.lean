import PollKeeper.Lock.Desk
import PollKeeper.Proofs.Lock.Turns

/-!
# The desk takes turns

Whatever is asked at the desk, its locks are those of a run of tasks in which every task that has its turn
has got its handle. So all that holds of such runs holds of the names at the desk: those that are held or
wait are the tasks that hold handles or wait, in the order in which they came.
-/

namespace PollKeeper

namespace Turns

variable {s : Turns} {h : Handle}

/-- Every task that has its turn has got its handle. -/
def Told (s : Turns) : Prop := ∀ t ∈ s.tasks, t.holds = s.locks.isHeld t.handle

private theorem locks_after_proceed (order : List Handle) :
    (s.after (order.map .proceed)).locks = s.locks := by
  induction order generalizing s with
  | nil => rfl
  | cons h rest ih => exact ih (s := s.step (.proceed h))

private theorem tasks_after_proceed (order : List Handle) :
    (s.after (order.map .proceed)).tasks = s.tasks.map fun t =>
      { t with holds := t.holds || (t.handle ∈ order && s.locks.isHeld t.handle) } := by
  induction order generalizing s with
  | nil => simp [after]
  | cons h rest ih =>
    refine (ih (s := s.step (.proceed h))).trans ?_
    simp only [step, List.map_map]
    refine List.map_congr_left fun t _ => ?_
    by_cases ht : t.handle = h <;> cases hheld : s.locks.isHeld h <;> simp [ht, hheld]

private theorem InOrder.exists_told (hs : s.InOrder) :
    ∃ order : List Handle, (s.after (order.map .proceed)).Told ∧
      (s.after (order.map .proceed)).locks = s.locks := by
  refine ⟨s.tasks.map (·.handle), fun t ht => ?_, locks_after_proceed _⟩
  rw [locks_after_proceed]
  rw [tasks_after_proceed] at ht
  obtain ⟨⟨h, holds⟩, hu, rfl⟩ := List.mem_map.mp ht
  have hthere : h ∈ s.tasks.map (·.handle) := List.mem_map_of_mem hu
  cases holds with
  | false => simp [hthere]
  | true =>
    have hheld := (hs.isHeld_of_mem_holders (mem_holders.mpr ⟨hu, rfl⟩)).2
    simp [hheld]

theorem InOrder.isHeld_iff_mem_holders (hs : s.InOrder) (ht : s.Told) :
    s.locks.isHeld h = true ↔ h ∈ s.holders h.guild := by
  refine ⟨fun hheld => ?_, fun hh => (hs.isHeld_of_mem_holders hh).2⟩
  have hticket : h.ticket ∈ (s.locks.lockOf h.guild).tickets :=
    List.mem_append_left _ (Option.mem_toList.mpr (of_decide_eq_true hheld))
  rw [hs.tickets] at hticket
  obtain ⟨⟨⟨guild, ticket⟩, holds⟩, hmem, hsame⟩ := List.mem_map.mp hticket
  obtain ⟨htask, hguild⟩ := mem_tasksOf.mp hmem
  obtain ⟨_, _⟩ := h
  simp only at hsame hguild
  subst hsame hguild
  have hholds : holds = _ := ht _ htask
  exact mem_holders.mpr ⟨hheld ▸ hholds ▸ htask, rfl⟩

theorem InOrder.isWaiting_iff_mem_waiting (hs : s.InOrder) (ht : s.Told) :
    s.locks.isWaiting h = true ↔ h ∈ s.waiting h.guild := by
  rw [mem_waiting, and_iff_left rfl, Locks.isWaiting, decide_eq_true_eq]
  refine ⟨fun hwaits => Classical.not_not.mp fun hout => hs.not_mem_waiters hout hwaits, fun htask => ?_⟩
  have hturn : s.locks.isHeld h = false := (ht _ htask).symm
  have hticket : h.ticket ∈ (s.locks.lockOf h.guild).tickets := by
    rw [hs.tickets]
    exact List.mem_map.mpr ⟨_, mem_tasksOf.mpr ⟨htask, rfl⟩, rfl⟩
  refine (List.mem_append.mp hticket).resolve_left fun hholder => ?_
  exact of_decide_eq_false hturn (Option.mem_toList.mp hholder)

end Turns

/-- The locks of a run of tasks in which every task that has its turn has got its handle. -/
def Locks.InTurn (l : Locks) : Prop :=
  ∃ events, (Turns.fresh.after events).locks = l ∧ (Turns.fresh.after events).Told

namespace Locks.InTurn

open Turns

variable {l : Locks} {h : Handle}

private theorem of_step (events : List TurnEvent) (e : TurnEvent) :
    ((fresh.after events).step e).locks.InTurn := by
  have hafter : ((fresh.after events).step e) = fresh.after (events ++ [e]) := by
    rw [after, after, List.foldl_append]
    rfl
  obtain ⟨order, htold, hlocks⟩ := (inOrder_after (events ++ [e])).exists_told
  refine ⟨events ++ [e] ++ order.map .proceed, ?_⟩
  rw [after, List.foldl_append, hafter]
  exact ⟨hlocks, htold⟩

private theorem empty : Locks.empty.InTurn := ⟨[], rfl, nofun⟩

private theorem request (hl : l.InTurn) (guild : GuildId) : (l.request guild).2.InTurn := by
  obtain ⟨events, rfl, -⟩ := hl
  exact of_step events (.ask guild)

private theorem acquire (hl : l.InTurn) (guild : GuildId) : (l.acquire guild).2.InTurn := by
  obtain ⟨events, rfl, -⟩ := hl
  have hstep := of_step events (.acquire false guild)
  simp only [step, Locks.acquireUnless, Bool.false_eq_true, if_false] at hstep
  generalize (fresh.after events).locks.acquire guild = o at hstep ⊢
  rcases o with ⟨_ | _, _⟩ <;> exact hstep

private theorem giveUp (hl : l.InTurn) (hwaits : l.isWaiting h = true) : (l.giveUp h).InTurn := by
  obtain ⟨events, rfl, htold⟩ := hl
  have hs := inOrder_after events
  have htask := (mem_waiting.mp ((hs.isWaiting_iff_mem_waiting htold).mp hwaits)).1
  have hstep := of_step events (.leave h)
  have hturn : ((fresh.after events).locks.giveUp h).isHeld h = false := by
    rw [Locks.isHeld, Locks.lockOf_giveUp, if_pos rfl]
    exact (htold _ htask).symm
  simpa [step, htask, Locks.release, hturn] using hstep

theorem release (hl : l.InTurn) (h : Handle) : (l.release h).InTurn := by
  obtain ⟨events, rfl, htold⟩ := hl
  cases hheld : (fresh.after events).locks.isHeld h with
  | false =>
    rw [Locks.release, if_neg (Bool.eq_false_iff.mp hheld)]
    exact ⟨events, rfl, htold⟩
  | true =>
    have hout : ⟨h, false⟩ ∉ (fresh.after events).tasks := fun htask =>
      Bool.false_ne_true ((htold _ htask).trans hheld)
    have hstep := of_step events (.release h)
    rwa [step, if_neg hout] at hstep

private theorem pruneIdle (hl : l.InTurn) : l.pruneIdle.2.InTurn := by
  obtain ⟨events, rfl, -⟩ := hl
  exact of_step events .prune

end Locks.InTurn

namespace Desk

variable {d : Desk}

def after (d : Desk) (requests : List DeskRequest) : Desk :=
  requests.foldl (fun d r => (d.answer r).2) d

private theorem inTurn_forget (hd : d.locks.InTurn) (name : String) : (d.forget name).locks.InTurn := by
  simp only [forget]
  split
  · split
    · exact hd
    · exact hd.release _
  · exact hd

private theorem inTurn_keep (hd : d.locks.InTurn) (name : String) (e : DeskEntry) :
    (d.keep name e).locks.InTurn := inTurn_forget hd name

private theorem inTurn_gather (hd : d.locks.InTurn) (fuel : Nat) : (d.gather fuel).locks.InTurn := by
  induction fuel generalizing d with
  | zero => exact hd
  | succ fuel ih =>
    simp only [gather]
    split
    · exact hd
    · next name h _ =>
      exact ih (inTurn_keep (d := { d with strays := d.strays.filter (·.2 ≠ h) }) hd name (.handle h))

private theorem isWaiting_of_waiting? {name : String} {h : Handle} (hname : d.waiting? name = some h) :
    d.locks.isWaiting h = true := by
  simp only [waiting?] at hname
  split at hname
  · split at hname
    · cases hname
      assumption
    · cases hname
  · cases hname

/-- Each request is made of what tasks may do. -/
theorem inTurn_handle (hd : d.locks.InTurn) (r : DeskRequest) : (d.handle r).2.locks.InTurn := by
  cases r with
  | acquire name guild =>
    have hlocks := hd.acquire guild
    simp only [handle]
    generalize d.locks.acquire guild = o at hlocks
    rcases o with ⟨e | h, locks⟩
    · exact hlocks
    · exact inTurn_keep (d := { d with locks }) hlocks name _
  | acquireCancelled guild => exact hd
  | wait name guild => exact inTurn_keep (d := { d with locks := _ }) (hd.request guild) name _
  | cancel name =>
    simp only [handle]
    split
    · next h hname =>
      exact inTurn_keep (d := d.stopWaiting name h) (hd.giveUp (isWaiting_of_waiting? hname)) name _
    · exact hd
  | abort name =>
    simp only [handle]
    split
    · next h hname => exact hd.giveUp (isWaiting_of_waiting? hname)
    · exact hd
  | release name =>
    simp only [handle]
    split
    · exact hd.release _
    · exact hd
  | drop name => exact inTurn_forget hd name
  | prune => exact hd.pruneIdle

private theorem inTurn_after (hd : d.locks.InTurn) (requests : List DeskRequest) :
    (d.after requests).locks.InTurn := by
  induction requests generalizing d with
  | nil => exact hd
  | cons r rest ih => exact ih (inTurn_gather (inTurn_handle hd r) _)

/-- The locks of a desk are those of a run of tasks, and those who hold a lock or wait for it by the locks
are the tasks that have got a handle or wait for one. -/
theorem takes_turns (requests : List DeskRequest) :
    ∃ events, let s := Turns.fresh.after events
      (empty.after requests).locks = s.locks ∧
        ∀ h, ((empty.after requests).locks.isHeld h = true ↔ h ∈ s.holders h.guild) ∧
          ((empty.after requests).locks.isWaiting h = true ↔ h ∈ s.waiting h.guild) := by
  obtain ⟨events, hlocks, htold⟩ := inTurn_after (d := empty) Locks.InTurn.empty requests
  have hs := Turns.inOrder_after events
  refine ⟨events, hlocks.symm, fun h => ?_⟩
  rw [← hlocks]
  exact ⟨hs.isHeld_iff_mem_holders htold, hs.isWaiting_iff_mem_waiting htold⟩

end Desk
end PollKeeper
