import Mathlib.Data.List.Nodup
import PollKeeper.Proofs.Lock.Line

/-!
# Taking turns

Tasks ask for the locks of guilds, wait, give up, and give back what they hold, in any order. When a
lock is given up, the next task in line has its turn, but it has no handle before it gets time to
proceed, and in the meantime it may leave like any other.

A record is kept of who waits and who holds a handle; it goes by what tasks were told, not by what the
locks say.
-/

namespace PollKeeper

/-- A task that has asked for a lock, with the handle that is meant for it. -/
structure LockTask where
  handle : Handle
  holds : Bool
  deriving DecidableEq

/-- The locks, and the tasks that wait for them or hold them, in the order in which they came. -/
structure Turns where
  locks : Locks
  tasks : List LockTask

inductive TurnEvent where
  /-- A task asks for a lock, and waits until it has its turn or leaves. -/
  | ask (guild : GuildId)
  /-- A task asks for a lock and leaves if it is not free; the attempt may be cancelled already. -/
  | acquire (cancelled : Bool) (guild : GuildId)
  /-- A waiting task gets time to proceed. If it has its turn, it takes its handle. -/
  | proceed (h : Handle)
  /-- A wait runs out, is cancelled or is aborted. -/
  | leave (h : Handle)
  /-- A handle is released or dropped, perhaps not for the first time. -/
  | release (h : Handle)
  | prune
  deriving DecidableEq

def TurnEvent.guild? : TurnEvent → Option GuildId
  | .ask guild => some guild
  | .acquire _ guild => some guild
  | .proceed h => some h.guild
  | .leave h => some h.guild
  | .release h => some h.guild
  | .prune => none

namespace Turns

def fresh : Turns := ⟨.empty, []⟩

def step (s : Turns) : TurnEvent → Turns
  | .ask guild =>
    let (h, locks) := s.locks.request guild
    ⟨locks, s.tasks ++ [⟨h, false⟩]⟩
  | .acquire cancelled guild =>
    match s.locks.acquireUnless cancelled guild with
    | (.ok h, locks) => ⟨locks, s.tasks ++ [⟨h, true⟩]⟩
    | (.error _, locks) => ⟨locks, s.tasks⟩
  | .proceed h =>
    { s with tasks := s.tasks.map fun t =>
        { t with holds := t.holds || (t.handle = h && s.locks.isHeld h) } }
  | .leave h =>
    -- A task that has its turn already passes it on.
    if ⟨h, false⟩ ∈ s.tasks then
      ⟨(s.locks.giveUp h).release h, s.tasks.filter (·.handle ≠ h)⟩
    else s
  | .release h =>
    -- A task that waits has nothing to release.
    if ⟨h, false⟩ ∈ s.tasks then s
    else ⟨s.locks.release h, s.tasks.filter (·.handle ≠ h)⟩
  | .prune => { s with locks := s.locks.pruneIdle.2 }

def after (s : Turns) (events : List TurnEvent) : Turns := events.foldl step s

def tasksOf (s : Turns) (guild : GuildId) : List LockTask :=
  s.tasks.filter (·.handle.guild = guild)

/-- The handles of a guild that were given out and not given back. -/
def holders (s : Turns) (guild : GuildId) : List Handle :=
  ((s.tasksOf guild).filter (·.holds)).map (·.handle)

/-- Who waits for the lock of a guild, the longest waiting first. -/
def waiting (s : Turns) (guild : GuildId) : List Handle :=
  ((s.tasksOf guild).filter (!·.holds)).map (·.handle)

/-- How the tasks of a guild take turns at its lock. -/
structure TakeTurns (s : Turns) (guild : GuildId) : Prop where
  /-- The lock knows just those tasks. -/
  tickets : (s.locks.lockOf guild).tickets =
    (s.holders guild ++ s.waiting guild).map (·.ticket)
  /-- No more than one handle is held, and it is good as long as it is held. -/
  exclusive : ∀ h ∈ s.holders guild, s.holders guild = [h] ∧ s.locks.isHeld h
  /-- The lock does not stay free when those who wait for it get time to proceed. -/
  awake : ∀ order : List Handle, (∀ h ∈ s.waiting guild, h ∈ order) →
    (s.after (order.map .proceed)).waiting guild ≠ [] →
      (s.after (order.map .proceed)).holders guild ≠ []
  /-- Only the one who has waited longest proceeds, and only if nobody holds the lock. -/
  proceeds : ∀ h ∈ s.waiting guild,
    if s.holders guild = [] ∧ (s.waiting guild).head? = some h then
      (s.step (.proceed h)).holders guild = [h] ∧
        (s.step (.proceed h)).waiting guild = (s.waiting guild).tail
    else s.step (.proceed h) = s
  /-- Whoever gives the lock up makes way for the one who has waited longest. -/
  gives : ∀ h ∈ s.holders guild,
    (s.step (.release h)).holders guild = [] ∧
      (s.step (.release h)).waiting guild = s.waiting guild ∧
      ∀ first ∈ (s.waiting guild).head?,
        ((s.step (.release h)).step (.proceed first)).holders guild = [first]
  /-- What is not held cannot be given up, so a second release does nothing. -/
  idle : ∀ h, h.guild = guild → h ∉ s.holders guild → s.step (.release h) = s
  /-- A newcomer is the last in line. -/
  joins : (s.step (.ask guild)).holders guild = s.holders guild ∧
    (s.step (.ask guild)).waiting guild = s.waiting guild ++ [⟨guild, s.locks.issued⟩]
  /-- A lock is obtained at once just if nobody holds it or waits for it. -/
  obtains : if s.holders guild = [] ∧ s.waiting guild = [] then
      ∃ h, (s.locks.acquire guild).1 = .ok h ∧
        (s.step (.acquire false guild)).holders guild = [h] ∧
        (s.step (.acquire false guild)).waiting guild = []
    else (s.locks.acquire guild).1 = .error (.timedOut guild) ∧
      (s.step (.acquire false guild)).holders guild = s.holders guild ∧
      (s.step (.acquire false guild)).waiting guild = s.waiting guild
  /-- Whoever stops waiting changes neither the holder nor the order of the others. -/
  leaves : ∀ h ∈ s.waiting guild, (s.step (.leave h)).holders guild = s.holders guild ∧
    (s.step (.leave h)).waiting guild = (s.waiting guild).erase h
  /-- What happens to other guilds makes no difference. -/
  apart : ∀ e : TurnEvent, e.guild? ≠ some guild →
    (s.step e).holders guild = s.holders guild ∧ (s.step e).waiting guild = s.waiting guild ∧
      (s.step e).locks.lockOf guild = s.locks.lockOf guild
  /-- An attempt that was cancelled beforehand says so, and touches no lock. -/
  interrupted : s.locks.acquireUnless true guild = (.error (.interrupted guild), s.locks) ∧
    s.step (.acquire true guild) = s

/-- The record of the tasks agrees with the locks. -/
structure InOrder (s : Turns) : Prop where
  issued : ∀ t ∈ s.tasks, t.handle.ticket < s.locks.issued
  distinct : (s.tasks.map (·.handle.ticket)).Nodup
  orderly : ∀ guild, (s.locks.lockOf guild).Orderly
  tickets : ∀ guild, (s.locks.lockOf guild).tickets = (s.tasksOf guild).map (·.handle.ticket)
  /-- Nobody but the first of a guild has a handle. -/
  first : ∀ guild, ∀ t ∈ (s.tasksOf guild).tail, t.holds = false

theorem inOrder_fresh : fresh.InOrder :=
  ⟨nofun, .nil, fun _ => Lock.orderly_free, fun _ => rfl, nofun⟩

variable {s : Turns} {h : Handle} {t : LockTask} {guild : GuildId}

theorem mem_tasksOf : t ∈ s.tasksOf guild ↔ t ∈ s.tasks ∧ t.handle.guild = guild := by
  simp [tasksOf]

theorem mem_waiting : h ∈ s.waiting guild ↔ ⟨h, false⟩ ∈ s.tasks ∧ h.guild = guild := by
  simp only [waiting, List.mem_map, List.mem_filter, mem_tasksOf, Bool.not_eq_true']
  constructor
  · rintro ⟨⟨_, _⟩, ⟨⟨ht, hguild⟩, rfl⟩, rfl⟩
    exact ⟨ht, hguild⟩
  · exact fun ⟨ht, hguild⟩ => ⟨_, ⟨⟨ht, hguild⟩, rfl⟩, rfl⟩

theorem mem_holders : h ∈ s.holders guild ↔ ⟨h, true⟩ ∈ s.tasks ∧ h.guild = guild := by
  simp only [holders, List.mem_map, List.mem_filter, mem_tasksOf]
  constructor
  · rintro ⟨⟨_, _⟩, ⟨⟨ht, hguild⟩, rfl⟩, rfl⟩
    exact ⟨ht, hguild⟩
  · exact fun ⟨ht, hguild⟩ => ⟨_, ⟨⟨ht, hguild⟩, rfl⟩, rfl⟩

private theorem tasksOf_newcomer (s : Turns) (locks : Locks) (t : LockTask) (guild : GuildId) :
    (⟨locks, s.tasks ++ [t]⟩ : Turns).tasksOf guild =
      s.tasksOf guild ++ if guild = t.handle.guild then [t] else [] := by
  rw [tasksOf, List.filter_append]
  by_cases he : guild = t.handle.guild
  · simp [tasksOf, he]
  · simp [tasksOf, he, Ne.symm he]

private theorem tasksOf_without (s : Turns) (locks : Locks) (h : Handle) (guild : GuildId) :
    (⟨locks, s.tasks.filter (·.handle ≠ h)⟩ : Turns).tasksOf guild =
      (s.tasksOf guild).filter (·.handle ≠ h) := by
  simp only [tasksOf, List.filter_filter, Bool.and_comm]

private theorem filter_tasksOf_of_ne (hother : guild ≠ h.guild) :
    (s.tasksOf guild).filter (·.handle ≠ h) = s.tasksOf guild := by
  refine List.filter_eq_self.mpr fun t ht => ?_
  have hne : t.handle ≠ h := fun he => hother (he ▸ (mem_tasksOf.mp ht).2.symm)
  simpa using hne

private theorem holders_without (s : Turns) (locks : Locks) (h : Handle) (guild : GuildId) :
    (⟨locks, s.tasks.filter (·.handle ≠ h)⟩ : Turns).holders guild =
      (s.holders guild).filter (· ≠ h) := by
  rw [holders, tasksOf_without, holders, List.filter_map, List.filter_filter, List.filter_filter]
  simp only [Function.comp_def, Bool.and_comm]

private theorem waiting_without (s : Turns) (locks : Locks) (h : Handle) (guild : GuildId) :
    (⟨locks, s.tasks.filter (·.handle ≠ h)⟩ : Turns).waiting guild =
      (s.waiting guild).filter (· ≠ h) := by
  rw [waiting, tasksOf_without, waiting, List.filter_map, List.filter_filter, List.filter_filter]
  simp only [Function.comp_def, Bool.and_comm]

private theorem tasksOf_proceed (s : Turns) (h : Handle) (guild : GuildId) :
    (s.step (.proceed h)).tasksOf guild = (s.tasksOf guild).map fun t =>
      { t with holds := t.holds || (t.handle = h && s.locks.isHeld h) } := by
  simp only [tasksOf, step, List.filter_map]
  rfl

namespace InOrder

/-- A ticket belongs to one task only. -/
theorem eq_of_ticket (hs : s.InOrder) {t u : LockTask} (ht : t ∈ s.tasks) (hu : u ∈ s.tasks)
    (h : t.handle.ticket = u.handle.ticket) : t = u :=
  List.inj_on_of_nodup_map hs.distinct ht hu h

theorem nodup_tickets (hs : s.InOrder) (guild : GuildId) :
    ((s.tasksOf guild).map (·.handle.ticket)).Nodup :=
  hs.distinct.sublist (List.filter_sublist.map _)

/-- The tasks of a guild: none, or one that may hold its lock and others that wait. -/
theorem tasksOf_cases (hs : s.InOrder) (guild : GuildId) :
    (s.tasksOf guild = [] ∧ s.holders guild = [] ∧ s.waiting guild = []) ∨
    ∃ t rest, s.tasksOf guild = t :: rest ∧
      (t.holds = true ∧ s.holders guild = [t.handle] ∧
          s.waiting guild = rest.map (·.handle) ∨
        t.holds = false ∧ s.holders guild = [] ∧
          s.waiting guild = t.handle :: rest.map (·.handle)) := by
  have hfirst := hs.first guild
  simp only [holders, waiting]
  cases htasks : s.tasksOf guild with
  | nil => exact .inl ⟨rfl, rfl, rfl⟩
  | cons t rest =>
    rw [htasks, List.tail_cons] at hfirst
    have hholders : rest.filter (·.holds) = [] :=
      List.filter_eq_nil_iff.mpr fun u hu => by simp [hfirst u hu]
    have hwaiting : rest.filter (!·.holds) = rest :=
      List.filter_eq_self.mpr fun u hu => by simp [hfirst u hu]
    refine .inr ⟨t, rest, rfl, ?_⟩
    cases hholds : t.holds <;> simp [hholds, hholders, hwaiting]

/-- The holders of a guild come before those who wait. -/
theorem map_tasksOf (hs : s.InOrder) (guild : GuildId) :
    (s.tasksOf guild).map (·.handle) = s.holders guild ++ s.waiting guild := by
  rcases hs.tasksOf_cases guild with ⟨htasks, hholders, hwaiting⟩ |
    ⟨t, rest, htasks, ⟨-, hholders, hwaiting⟩ | ⟨-, hholders, hwaiting⟩⟩ <;>
  rw [htasks, hholders, hwaiting] <;> rfl

/-- A task has its turn if it is the first of its guild. -/
theorem isHeld_iff (hs : s.InOrder) (ht : t ∈ s.tasks) :
    s.locks.isHeld t.handle = true ↔ (s.tasksOf t.handle.guild).head? = some t := by
  rw [Locks.isHeld, decide_eq_true_eq, Lock.holder_eq (hs.orderly _), hs.tickets, List.head?_map]
  cases hhead : (s.tasksOf t.handle.guild).head? with
  | none => simp
  | some u =>
    have hu : u ∈ s.tasks := (mem_tasksOf.mp (List.mem_of_head? hhead)).1
    simp only [Option.map_some, Option.some.injEq]
    exact ⟨fun h => hs.eq_of_ticket hu ht h, fun h => h ▸ rfl⟩

/-- Whoever waits has its turn if nobody holds the lock and nobody has waited longer. -/
theorem isHeld_waiting_iff (hs : s.InOrder) (hw : h ∈ s.waiting guild) :
    s.locks.isHeld h = true ↔
      s.holders guild = [] ∧ (s.waiting guild).head? = some h := by
  obtain ⟨htask, rfl⟩ := mem_waiting.mp hw
  have hheld := hs.isHeld_iff htask
  simp only at hheld
  rw [hheld]
  rcases hs.tasksOf_cases h.guild with ⟨htasks, hholders, hwaiting⟩ |
    ⟨t, rest, htasks, ⟨hholds, hholders, hwaiting⟩ | ⟨hholds, hholders, hwaiting⟩⟩
  · simp [htasks, hwaiting]
  · rw [htasks, hholders]
    simp only [List.head?_cons, Option.some.injEq]
    refine ⟨fun he => ?_, fun hnil => (List.cons_ne_nil _ _ hnil.1).elim⟩
    rw [he] at hholds
    cases hholds
  · rw [htasks, hholders, hwaiting]
    simp only [List.head?_cons, Option.some.injEq, true_and]
    refine ⟨fun he => he ▸ rfl, fun he => ?_⟩
    obtain ⟨handle, holds⟩ := t
    simp only at he hholds
    rw [he, hholds]

theorem isHeld_of_mem_holders (hs : s.InOrder) (hh : h ∈ s.holders guild) :
    s.holders guild = [h] ∧ s.locks.isHeld h = true := by
  obtain ⟨htask, hguild⟩ := mem_holders.mp hh
  have hheld := hs.isHeld_iff htask
  simp only [hguild] at hheld
  rcases hs.tasksOf_cases guild with ⟨-, hholders, -⟩ |
    ⟨t, rest, htasks, ⟨hholds, hholders, -⟩ | ⟨-, hholders, -⟩⟩
  · rw [hholders] at hh
    cases hh
  · rw [hholders, List.mem_singleton] at hh
    subst hh
    refine ⟨hholders, hheld.mpr ?_⟩
    rw [htasks, ← hholds]
    rfl
  · rw [hholders] at hh
    cases hh

private theorem append {locks : Locks} {holds : Bool} (hs : s.InOrder)
    (hissued : locks.issued = s.locks.issued + 1)
    (horderly : ∀ other, (locks.lockOf other).Orderly)
    (htickets : ∀ other, (locks.lockOf other).tickets =
      if other = guild then (s.locks.lockOf guild).tickets ++ [s.locks.issued]
      else (s.locks.lockOf other).tickets)
    (hholds : holds = true → s.tasksOf guild = []) :
    InOrder ⟨locks, s.tasks ++ [⟨⟨guild, s.locks.issued⟩, holds⟩]⟩ := by
  have htasks := s.tasksOf_newcomer locks ⟨⟨guild, s.locks.issued⟩, holds⟩
  refine ⟨fun t ht => ?_, ?_, horderly, fun other => ?_, fun other t ht => ?_⟩
  · rw [hissued]
    rcases List.mem_append.mp ht with ht | ht
    · exact Nat.lt_succ_of_lt (hs.issued t ht)
    · rw [List.mem_singleton.mp ht]
      exact Nat.lt_succ_self _
  · rw [List.map_append]
    refine List.nodup_append.mpr ⟨hs.distinct, by simp, fun a ha b hb => ?_⟩
    obtain ⟨t, ht, rfl⟩ := List.mem_map.mp ha
    obtain rfl := List.mem_singleton.mp hb
    exact Nat.ne_of_lt (hs.issued t ht)
  · rw [htickets, htasks]
    split
    · next he => rw [List.map_append, hs.tickets, he, List.map_singleton]
    · rw [List.append_nil, hs.tickets]
  · rw [htasks] at ht
    split at ht
    · next he =>
      subst he
      cases hold : s.tasksOf other with
      | nil =>
        rw [hold] at ht
        cases ht
      | cons u rest =>
        have hwaits : holds = false := by
          cases holds with
          | false => rfl
          | true => cases hold.symm.trans (hholds rfl)
        have hfirst := hs.first other
        rw [hold] at ht hfirst
        rcases List.mem_append.mp ht with ht | ht
        · exact hfirst t ht
        · rw [List.mem_singleton.mp ht]
          exact hwaits
    · rw [List.append_nil] at ht
      exact hs.first other t ht

private theorem without {locks : Locks} (hs : s.InOrder) (hissued : locks.issued = s.locks.issued)
    (horderly : ∀ other, (locks.lockOf other).Orderly)
    (htickets : ∀ other, (locks.lockOf other).tickets =
      if other = h.guild then (s.locks.lockOf h.guild).tickets.erase h.ticket
      else (s.locks.lockOf other).tickets) :
    InOrder ⟨locks, s.tasks.filter (·.handle ≠ h)⟩ := by
  have htasks := s.tasksOf_without locks h
  refine ⟨fun t ht => ?_, ?_, horderly, fun other => ?_, fun other t ht => ?_⟩
  · rw [hissued]
    exact hs.issued t (List.mem_filter.mp ht).1
  · exact hs.distinct.sublist (List.filter_sublist.map _)
  · rw [htickets, htasks]
    split
    · next he =>
      subst he
      rw [hs.tickets, (hs.nodup_tickets _).erase_eq_filter, List.filter_map]
      congr 1
      refine List.filter_congr fun t ht => ?_
      have hguild := (mem_tasksOf.mp ht).2
      obtain ⟨⟨_, ticket⟩, _⟩ := t
      obtain ⟨_, _⟩ := h
      simp only at hguild
      subst hguild
      simp [bne, Bool.beq_eq_decide_eq, eq_comm]
    · next hother =>
      rw [hs.tickets, filter_tasksOf_of_ne hother]
  · rw [htasks] at ht
    exact hs.first other t (List.filter_sublist.tail.subset ht)

private theorem proceed (hs : s.InOrder) (h : Handle) : (s.step (.proceed h)).InOrder := by
  have htickets : ∀ tasks : List LockTask,
      (tasks.map fun t => ({ t with holds := t.holds || (t.handle = h && s.locks.isHeld h) } :
        LockTask)).map (·.handle.ticket) = tasks.map (·.handle.ticket) := by
    simp
  have htasks := s.tasksOf_proceed h
  refine ⟨fun t ht => ?_, ?_, hs.orderly, fun guild => ?_, fun guild t ht => ?_⟩
  · obtain ⟨u, hu, rfl⟩ := List.mem_map.mp ht
    exact hs.issued u hu
  · exact (htickets s.tasks).symm ▸ hs.distinct
  · rw [htasks, htickets]
    exact hs.tickets guild
  · rw [htasks, ← List.map_tail] at ht
    obtain ⟨u, hu, rfl⟩ := List.mem_map.mp ht
    have hwaits := hs.first guild u hu
    have hmem := mem_tasksOf.mp (List.mem_of_mem_tail hu)
    simp only [hwaits, Bool.false_or, Bool.and_eq_false_imp, decide_eq_true_eq]
    -- The first of the guild is another one, and it alone has its turn.
    rintro rfl
    rw [Bool.eq_false_iff, Ne, hs.isHeld_iff hmem.1, hmem.2]
    intro hhead
    have hnodup := hs.nodup_tickets guild
    obtain ⟨rest, hrest⟩ := List.head?_eq_some_iff.mp hhead
    rw [hrest] at hnodup hu
    exact (List.nodup_cons.mp hnodup).1 (List.mem_map_of_mem hu)

private theorem leave (hs : s.InOrder) (h : Handle) : (s.step (.leave h)).InOrder := by
  simp only [step]
  split
  · refine hs.without ?_ (fun other => ?_) fun other => ?_
    · rw [Locks.issued_release, Locks.issued_giveUp]
    · simp only [Locks.lockOf_release, Locks.lockOf_giveUp, if_true]
      split
      · exact Lock.orderly_release (Lock.orderly_leave (hs.orderly _) _) _
      · exact hs.orderly other
    · simp only [Locks.lockOf_release, Locks.lockOf_giveUp, if_true]
      split
      · exact Lock.tickets_leave_release (hs.tickets h.guild ▸ hs.nodup_tickets h.guild)
      · rfl
  · exact hs

theorem not_mem_waiters (hs : s.InOrder) (hout : ⟨h, false⟩ ∉ s.tasks) :
    h.ticket ∉ (s.locks.lockOf h.guild).waiters := by
  rw [Lock.waiters_eq (hs.orderly _), hs.tickets, ← List.map_tail]
  intro hmem
  obtain ⟨⟨⟨guild, ticket⟩, holds⟩, ht, hticket⟩ := List.mem_map.mp hmem
  have hwaits := hs.first _ _ ht
  obtain ⟨htask, hguild⟩ := mem_tasksOf.mp (List.mem_of_mem_tail ht)
  obtain ⟨_, _⟩ := h
  simp only at hwaits hguild hticket
  subst hwaits hguild hticket
  exact hout htask

private theorem release (hs : s.InOrder) (h : Handle) : (s.step (.release h)).InOrder := by
  simp only [step]
  split
  · exact hs
  · next hout =>
    refine hs.without (Locks.issued_release _ _) (fun other => ?_) fun other => ?_
    · rw [Locks.lockOf_release]
      split
      · exact Lock.orderly_release (hs.orderly _) _
      · exact hs.orderly other
    · rw [Locks.lockOf_release]
      split
      · exact Lock.tickets_release (hs.not_mem_waiters hout)
      · rfl

private theorem ask (hs : s.InOrder) (guild : GuildId) : (s.step (.ask guild)).InOrder := by
  have hlocks := s.locks.lockOf_request guild
  show InOrder ⟨(s.locks.request guild).2, s.tasks ++ [⟨⟨guild, s.locks.issued⟩, false⟩]⟩
  refine hs.append rfl (fun other => ?_) (fun other => ?_) nofun
  · rw [hlocks]
    split
    · exact Lock.orderly_join (hs.orderly guild) _
    · exact hs.orderly other
  · rw [hlocks]
    split
    · exact Lock.tickets_join _ _
    · rfl

theorem lockOf_eq_free_iff (hs : s.InOrder) (guild : GuildId) :
    s.locks.lockOf guild = .free ↔ s.tasksOf guild = [] := by
  rw [← Lock.tickets_eq_nil_iff, hs.tickets, List.map_eq_nil_iff]

private theorem lt_issued (hs : s.InOrder) (guild : GuildId) :
    ∀ ticket ∈ (s.locks.lockOf guild).tickets, ticket < s.locks.issued := by
  rw [hs.tickets]
  intro ticket hticket
  obtain ⟨t, ht, rfl⟩ := List.mem_map.mp hticket
  exact hs.issued t (mem_tasksOf.mp ht).1

private theorem acquire (hs : s.InOrder) (cancelled : Bool) (guild : GuildId) :
    (s.step (.acquire cancelled guild)).InOrder := by
  cases cancelled with
  | true => exact hs
  | false =>
    have hcases := Locks.acquire_cases (hs.orderly guild) (hs.lt_issued guild)
    simp only [step, Locks.acquireUnless, Bool.false_eq_true, if_false]
    split at hcases
    · next hfree =>
      obtain ⟨locks, hacquire, hissued, hlocks⟩ := hcases
      rw [hacquire]
      refine hs.append hissued (fun other => ?_) (fun other => ?_) fun _ =>
        (hs.lockOf_eq_free_iff guild).mp hfree
      · rw [hlocks]
        split
        · intro hnone
          cases hnone
        · exact hs.orderly other
      · rw [hlocks]
        split
        · rw [hfree]
          rfl
        · rfl
    · obtain ⟨locks, hacquire, hissued, hlocks⟩ := hcases
      rw [hacquire]
      refine ⟨fun t ht => hissued ▸ Nat.lt_succ_of_lt (hs.issued t ht), hs.distinct, fun other => ?_,
        fun other => ?_, hs.first⟩
      · rw [hlocks]
        exact hs.orderly other
      · rw [hlocks]
        exact hs.tickets other

private theorem prune (hs : s.InOrder) : (s.step .prune).InOrder := by
  have hlocks : ∀ guild, (s.step .prune).locks.lockOf guild = s.locks.lockOf guild :=
    s.locks.lockOf_pruneIdle
  exact ⟨hs.issued, hs.distinct, fun guild => hlocks guild ▸ hs.orderly guild,
    fun guild => hlocks guild ▸ hs.tickets guild, hs.first⟩

theorem step (hs : s.InOrder) (e : TurnEvent) : (s.step e).InOrder := by
  cases e with
  | ask guild => exact hs.ask guild
  | acquire cancelled guild => exact hs.acquire cancelled guild
  | proceed h => exact hs.proceed h
  | leave h => exact hs.leave h
  | release h => exact hs.release h
  | prune => exact hs.prune

theorem nodup_handles (hs : s.InOrder) (guild : GuildId) :
    (s.holders guild ++ s.waiting guild).Nodup := by
  rw [← hs.map_tasksOf]
  refine List.Nodup.of_map (·.ticket) ?_
  rw [List.map_map]
  exact hs.nodup_tickets guild

private theorem not_mem_holders (hs : s.InOrder) (hw : h ∈ s.waiting guild) : h ∉ s.holders guild :=
  fun hh => (List.nodup_append.mp (hs.nodup_handles guild)).2.2 h hh h hw rfl

private theorem proceed_eq_self (hturn : s.locks.isHeld h = false) : s.step (.proceed h) = s := by
  simp [Turns.step, hturn]

private theorem handles_proceed (hs : s.InOrder) (h : Handle) (guild : GuildId) :
    (s.step (.proceed h)).holders guild ++ (s.step (.proceed h)).waiting guild =
      s.holders guild ++ s.waiting guild := by
  rw [← hs.map_tasksOf, ← (hs.proceed h).map_tasksOf, tasksOf_proceed, List.map_map]
  rfl

/-- Only the one who has waited longest proceeds, and only if nobody holds the lock. -/
theorem proceed_of_waiting (hs : s.InOrder) (hw : h ∈ s.waiting guild) :
    if s.holders guild = [] ∧ (s.waiting guild).head? = some h then
      (s.step (.proceed h)).holders guild = [h] ∧
        (s.step (.proceed h)).waiting guild = (s.waiting guild).tail
    else s.step (.proceed h) = s := by
  have hturn := hs.isHeld_waiting_iff hw
  split
  · next hfirst =>
    obtain ⟨rest, hrest⟩ := List.head?_eq_some_iff.mp hfirst.2
    obtain ⟨htask, hguild⟩ := mem_waiting.mp hw
    have hgot : h ∈ (s.step (.proceed h)).holders guild := by
      refine mem_holders.mpr ⟨List.mem_map.mpr ⟨_, htask, ?_⟩, hguild⟩
      simp [hturn.mpr hfirst]
    have halone := ((hs.proceed h).isHeld_of_mem_holders hgot).1
    have hline := hs.handles_proceed h guild
    rw [halone, hfirst.1, hrest] at hline
    rw [hrest]
    exact ⟨halone, (List.cons.inj hline).2⟩
  · next hlater =>
    exact proceed_eq_self (Bool.eq_false_iff.mpr fun hheld => hlater (hturn.mp hheld))

private theorem mem_holders_proceed (hh : h ∈ s.holders guild) (other : Handle) :
    h ∈ (s.step (.proceed other)).holders guild := by
  obtain ⟨htask, hguild⟩ := mem_holders.mp hh
  exact mem_holders.mpr ⟨List.mem_map.mpr ⟨_, htask, by simp⟩, hguild⟩

/-- The first of a guild has a handle once it has got time to proceed. -/
private theorem holders_after_proceed {first : Handle} {order : List Handle} (hs : s.InOrder)
    (hfirst : (s.holders guild ++ s.waiting guild).head? = some first)
    (hturn : first ∈ s.holders guild ∨ first ∈ order) :
    first ∈ (s.after (order.map .proceed)).holders guild := by
  induction order generalizing s with
  | nil => exact hturn.resolve_right List.not_mem_nil
  | cons h rest ih =>
    refine ih (hs.proceed h) (hs.handles_proceed h guild ▸ hfirst) ?_
    rcases hturn with hh | hturn
    · exact .inl (mem_holders_proceed hh h)
    · rcases List.mem_cons.mp hturn with rfl | hturn
      · left
        by_cases hh : first ∈ s.holders guild
        · exact mem_holders_proceed hh first
        · cases hholders : s.holders guild with
          | nil =>
            rw [hholders, List.nil_append] at hfirst
            have hproceed := hs.proceed_of_waiting (List.mem_of_head? hfirst)
            rw [if_pos ⟨hholders, hfirst⟩] at hproceed
            rw [hproceed.1]
            exact List.mem_singleton_self _
          | cons u us =>
            rw [hholders, List.cons_append, List.head?_cons, Option.some.injEq] at hfirst
            rw [hholders, hfirst] at hh
            exact absurd List.mem_cons_self hh
      · exact .inr hturn

private theorem handles_after_proceed (hs : s.InOrder) (order : List Handle) (guild : GuildId) :
    (s.after (order.map .proceed)).holders guild ++ (s.after (order.map .proceed)).waiting guild =
      s.holders guild ++ s.waiting guild := by
  induction order generalizing s with
  | nil => rfl
  | cons h rest ih => exact (ih (hs.proceed h)).trans (hs.handles_proceed h guild)

/-- The lock does not stay free when those who wait for it get time to proceed. -/
theorem awake (hs : s.InOrder) {order : List Handle} (horder : ∀ h ∈ s.waiting guild, h ∈ order)
    (hwaiting : (s.after (order.map .proceed)).waiting guild ≠ []) :
    (s.after (order.map .proceed)).holders guild ≠ [] := by
  have hline : s.holders guild ++ s.waiting guild ≠ [] := by
    rw [← hs.handles_after_proceed order]
    exact List.append_ne_nil_of_right_ne_nil _ hwaiting
  obtain ⟨first, others, hfirst⟩ := List.exists_cons_of_ne_nil hline
  have hturn : first ∈ s.holders guild ∨ first ∈ order :=
    (List.mem_append.mp (hfirst ▸ List.mem_cons_self)).imp_right (horder first)
  exact List.ne_nil_of_mem (hs.holders_after_proceed (by rw [hfirst]; rfl) hturn)

/-- A release leaves the lock to those who wait. -/
theorem release_of_mem_holders (hs : s.InOrder) (hh : h ∈ s.holders guild) :
    (s.step (.release h)).holders guild = [] ∧
      (s.step (.release h)).waiting guild = s.waiting guild := by
  have hout : ⟨h, false⟩ ∉ s.tasks := fun hmem =>
    hs.not_mem_holders (mem_waiting.mpr ⟨hmem, (mem_holders.mp hh).2⟩) hh
  have hwaiting : h ∉ s.waiting guild := fun hw => hs.not_mem_holders hw hh
  rw [Turns.step, if_neg hout, holders_without, waiting_without, (hs.isHeld_of_mem_holders hh).1]
  refine ⟨by simp, List.filter_eq_self.mpr fun other hother => ?_⟩
  have hne : other ≠ h := fun he => hwaiting (he ▸ hother)
  simpa using hne

theorem release_eq_self (hs : s.InOrder) (hout : h ∉ s.holders h.guild) :
    s.step (.release h) = s := by
  by_cases hw : ⟨h, false⟩ ∈ s.tasks
  · exact if_pos hw
  · have hgone : ∀ t ∈ s.tasks, t.handle ≠ h := by
      rintro ⟨handle, holds⟩ ht rfl
      cases holds with
      | false => exact hw ht
      | true => exact hout (mem_holders.mpr ⟨ht, rfl⟩)
    have hfree : s.locks.isHeld h = false := by
      rw [Locks.isHeld, decide_eq_false_iff_not, Lock.holder_eq (hs.orderly _), hs.tickets]
      intro hhead
      obtain ⟨t, ht, hticket⟩ := List.mem_map.mp (List.mem_of_head? hhead)
      obtain ⟨htask, hguild⟩ := mem_tasksOf.mp ht
      have hsame : t.handle = ⟨h.guild, h.ticket⟩ := by rw [← hguild, ← hticket]
      exact hgone t htask hsame
    have htasks : s.tasks.filter (·.handle ≠ h) = s.tasks :=
      List.filter_eq_self.mpr fun t ht => by simpa using hgone t ht
    have hlocks : s.locks.release h = s.locks := if_neg (by simp [hfree])
    rw [Turns.step, if_neg hw, htasks, hlocks]

private theorem leave_of_waiting (hs : s.InOrder) (hw : h ∈ s.waiting guild) :
    (s.step (.leave h)).holders guild = s.holders guild ∧
      (s.step (.leave h)).waiting guild = (s.waiting guild).erase h := by
  have hnodup := (List.nodup_append.mp (hs.nodup_handles guild)).2.1
  have hout := hs.not_mem_holders hw
  rw [Turns.step, if_pos (mem_waiting.mp hw).1, holders_without, waiting_without,
    hnodup.erase_eq_filter]
  refine ⟨List.filter_eq_self.mpr fun other hother => ?_, List.filter_congr fun other _ => ?_⟩
  · have hne : other ≠ h := fun he => hout (he ▸ hother)
    simpa using hne
  · simp [bne, Bool.beq_eq_decide_eq]

/-- An attempt obtains a lock at once just if nobody holds it or waits for it. -/
theorem acquire_iff (hs : s.InOrder) (guild : GuildId) :
    if s.holders guild = [] ∧ s.waiting guild = [] then
      ∃ h, (s.locks.acquire guild).1 = .ok h ∧
        (s.step (.acquire false guild)).holders guild = [h] ∧
        (s.step (.acquire false guild)).waiting guild = []
    else (s.locks.acquire guild).1 = .error (.timedOut guild) ∧
      (s.step (.acquire false guild)).holders guild = s.holders guild ∧
      (s.step (.acquire false guild)).waiting guild = s.waiting guild := by
  have hcases := Locks.acquire_cases (hs.orderly guild) (hs.lt_issued guild)
  have hfree : s.locks.lockOf guild = .free ↔ s.holders guild = [] ∧ s.waiting guild = [] := by
    rw [hs.lockOf_eq_free_iff, ← List.append_eq_nil_iff, ← hs.map_tasksOf, List.map_eq_nil_iff]
  simp only [hfree] at hcases
  split
  · next hnone =>
    rw [if_pos hnone] at hcases
    obtain ⟨locks, hacquire, -, -⟩ := hcases
    have htasks := (hs.lockOf_eq_free_iff guild).mp (hfree.mpr hnone)
    have hstep : s.step (.acquire false guild) =
        ⟨locks, s.tasks ++ [⟨⟨guild, s.locks.issued⟩, true⟩]⟩ := by
      simp only [Turns.step, Locks.acquireUnless, Bool.false_eq_true, if_false, hacquire]
    refine ⟨⟨guild, s.locks.issued⟩, by rw [hacquire], ?_, ?_⟩
    · rw [hstep, holders, tasksOf_newcomer, htasks, if_pos rfl]
      rfl
    · rw [hstep, waiting, tasksOf_newcomer, htasks, if_pos rfl]
      rfl
  · next hbusy =>
    rw [if_neg hbusy] at hcases
    obtain ⟨locks, hacquire, -, -⟩ := hcases
    have hstep : s.step (.acquire false guild) = ⟨locks, s.tasks⟩ := by
      simp only [Turns.step, Locks.acquireUnless, Bool.false_eq_true, if_false, hacquire]
    rw [hstep, hacquire]
    exact ⟨rfl, rfl, rfl⟩

theorem apart (hs : s.InOrder) (e : TurnEvent) (hother : e.guild? ≠ some guild) :
    (s.step e).tasksOf guild = s.tasksOf guild ∧
      (s.step e).locks.lockOf guild = s.locks.lockOf guild := by
  cases e with
  | ask other =>
    have hne : guild ≠ other := fun he => hother (he ▸ rfl)
    refine ⟨(s.tasksOf_newcomer _ _ guild).trans ?_, (s.locks.lockOf_request other guild).trans ?_⟩
    · exact (congrArg _ (if_neg hne)).trans (List.append_nil _)
    · exact if_neg hne
  | acquire cancelled other =>
    have hne : guild ≠ other := fun he => hother (he ▸ rfl)
    cases cancelled with
    | true => exact ⟨rfl, rfl⟩
    | false =>
      have hcases := Locks.acquire_cases (hs.orderly other) (hs.lt_issued other)
      simp only [Turns.step, Locks.acquireUnless, Bool.false_eq_true, if_false]
      split at hcases
      · obtain ⟨locks, hacquire, -, hlocks⟩ := hcases
        rw [hacquire]
        refine ⟨(s.tasksOf_newcomer _ _ guild).trans ?_, (hlocks guild).trans (if_neg hne)⟩
        exact (congrArg _ (if_neg hne)).trans (List.append_nil _)
      · obtain ⟨locks, hacquire, -, hlocks⟩ := hcases
        rw [hacquire]
        exact ⟨rfl, hlocks guild⟩
  | proceed h =>
    have hne : guild ≠ h.guild := fun he => hother (he ▸ rfl)
    refine ⟨?_, rfl⟩
    rw [tasksOf_proceed]
    refine (List.map_congr_left fun t ht => ?_).trans (List.map_id _)
    have hapart : t.handle ≠ h := fun he => hne (he ▸ (mem_tasksOf.mp ht).2.symm)
    simp [hapart]
  | leave h =>
    have hne : guild ≠ h.guild := fun he => hother (he ▸ rfl)
    simp only [Turns.step]
    split
    · refine ⟨(s.tasksOf_without _ h guild).trans (filter_tasksOf_of_ne hne), ?_⟩
      rw [Locks.lockOf_release, if_neg hne, Locks.lockOf_giveUp, if_neg hne]
    · exact ⟨rfl, rfl⟩
  | release h =>
    have hne : guild ≠ h.guild := fun he => hother (he ▸ rfl)
    simp only [Turns.step]
    split
    · exact ⟨rfl, rfl⟩
    · refine ⟨(s.tasksOf_without _ h guild).trans (filter_tasksOf_of_ne hne), ?_⟩
      rw [Locks.lockOf_release, if_neg hne]
  | prune => exact ⟨rfl, s.locks.lockOf_pruneIdle guild⟩

theorem takeTurns (hs : s.InOrder) (guild : GuildId) : s.TakeTurns guild where
  tickets := by
    rw [hs.tickets, ← hs.map_tasksOf, List.map_map]
    rfl
  exclusive _ hh := hs.isHeld_of_mem_holders hh
  awake _ horder := hs.awake horder
  proceeds _ hw := hs.proceed_of_waiting hw
  gives h hh := by
    obtain ⟨hholders, hwaiting⟩ := hs.release_of_mem_holders hh
    refine ⟨hholders, hwaiting, fun first hfirst => ?_⟩
    rw [← hwaiting] at hfirst
    have hproceed := (hs.release h).proceed_of_waiting (List.mem_of_head? hfirst)
    rw [if_pos ⟨hholders, hfirst⟩] at hproceed
    exact hproceed.1
  idle h hguild hout := hs.release_eq_self (hguild ▸ hout)
  joins := by
    have htasks := s.tasksOf_newcomer (s.locks.request guild).2 ⟨⟨guild, s.locks.issued⟩, false⟩ guild
    rw [if_pos rfl] at htasks
    constructor
    · refine (congrArg (fun tasks => (tasks.filter (·.holds)).map (·.handle)) htasks).trans ?_
      simp [holders]
    · refine (congrArg (fun tasks => (tasks.filter (!·.holds)).map (·.handle)) htasks).trans ?_
      simp [waiting]
  obtains := hs.acquire_iff guild
  leaves _ hw := hs.leave_of_waiting hw
  apart e hother := by
    obtain ⟨htasks, hlock⟩ := hs.apart e hother
    exact ⟨by rw [holders, htasks, holders], by rw [waiting, htasks, waiting], hlock⟩
  interrupted := ⟨rfl, rfl⟩

end InOrder

theorem inOrder_after (events : List TurnEvent) : (fresh.after events).InOrder := by
  have hall : ∀ s : Turns, s.InOrder → (s.after events).InOrder := by
    induction events with
    | nil => exact fun _ hs => hs
    | cons e rest ih => exact fun s hs => ih _ (hs.step e)
  exact hall fresh inOrder_fresh

/-- Whatever the tasks have done, they take turns at every lock. -/
theorem takeTurns_after (events : List TurnEvent) (guild : GuildId) :
    (fresh.after events).TakeTurns guild :=
  (inOrder_after events).takeTurns guild

end Turns
end PollKeeper
