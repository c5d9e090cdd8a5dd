import Mathlib.Logic.Relation
import PollKeeper.Proofs.Refresh.Outcome
import PollKeeper.Proofs.Store.AnswerCap
import PollKeeper.Proofs.Store.Expiry
import PollKeeper.Proofs.Time.Sums

/-!
# The sweep over expired polls

The sweep in phases. First it lists the polls that ended. Then, guild by guild, it stands in line for the
lock, and when it has its turn it deletes the listed polls one after the other, as far as they still have
ended. Between any two phases anything else may happen to the store.
-/

namespace PollKeeper

open Time StoreAction

/-- A second is over some time before an instant only if more than this time lies between them. -/
theorem Time.Instant.lt_of_isPast_minus {now : Instant} {d : Span} {second : Int}
    (hmin : minSeconds ≤ second) (h : (now.minus d).IsPast second) :
    d.nanos < now.total - second * 1000000000 := by
  have htotal := now.total_minus d
  simp only [IsPast] at h
  simp only [total, earliest] at htotal ⊢
  omega

theorem Tables.Sound.minSeconds_le_endAt {t : Tables} (ht : t.Sound) {key : PollKey} {r : PollRow}
    (hr : t.row? key = some r) : minSeconds ≤ r.endAt := by
  obtain ⟨o, ho⟩ := ht key
  obtain ⟨p, rfl⟩ := ho.isSome hr
  have hmin := p.start.min_le
  rw [endAt_of_denotes ho hr]
  omega

/-- How far a sweep has come: the guilds that are left, each with its listed polls, and how many polls
were deleted. -/
inductive ExpiryPhase where
  | between (groups : List (GuildId × List PollKey)) (deleted : Nat)
  /-- In line for the lock of a guild. -/
  | waiting (h : Handle) (keys : List PollKey) (groups : List (GuildId × List PollKey)) (deleted : Nat)
  | deleting (h : Handle) (keys : List PollKey) (groups : List (GuildId × List PollKey)) (deleted : Nat)
  | ended (result : Except StoreError Nat)

namespace ExpiryPhase

def handle? : ExpiryPhase → Option Handle
  | waiting h .. => some h
  | deleting h .. => some h
  | _ => none

/-- The handle of a guild whose lock the sweep has got. -/
def holder? : ExpiryPhase → Option Handle
  | deleting h .. => some h
  | _ => none

def deleted : ExpiryPhase → Nat
  | between _ n => n
  | waiting _ _ _ n => n
  | deleting _ _ _ n => n
  | ended (.ok n) => n
  | ended (.error _) => 0

def IsGrouped : ExpiryPhase → Prop
  | between groups _ => ∀ group ∈ groups, ∀ key ∈ group.2, key.guild = group.1
  | waiting h keys groups _ | deleting h keys groups _ =>
    (∀ key ∈ keys, key.guild = h.guild) ∧ ∀ group ∈ groups, ∀ key ∈ group.2, key.guild = group.1
  | ended _ => True

end ExpiryPhase

/-- A store and a sweep over its expired polls. -/
structure ExpirySweep where
  store : Store
  phase : ExpiryPhase

namespace ExpirySweep

def start (s : Store) (before : Instant) : ExpirySweep :=
  match (look fun t => .ok (t.endedBefore before.ceilSeconds)).outcome s with
  | (.ok keys, s) => ⟨s, .between (Store.byGuild keys) 0⟩
  | (.error e, s) => ⟨s, .ended (.error e)⟩

/-- One more phase. A sweep whose turn has not come when it gets time to proceed waits no longer and skips
the guild. -/
def advance (before : Instant) (w : ExpirySweep) : ExpirySweep :=
  match w.phase with
  | .between [] n => ⟨{ w.store with locks := w.store.locks.pruneIdle.2 }, .ended (.ok n)⟩
  | .between ((guild, keys) :: groups) n =>
    let (h, locks) := w.store.locks.request guild
    ⟨{ w.store with locks }, .waiting h keys groups n⟩
  | .waiting h keys groups n =>
    if w.store.locks.isHeld h then { w with phase := .deleting h keys groups n }
    else ⟨{ w.store with locks := w.store.locks.giveUp h }, .between groups n⟩
  | .deleting h [] groups n =>
    ⟨{ w.store with locks := w.store.locks.release h }, .between groups n⟩
  | .deleting h (key :: keys) groups n =>
    match (Store.deleteEnded before.ceilSeconds key).outcome w.store with
    | (.ok removed, s) => ⟨s, .deleting h keys groups (n + if removed then 1 else 0)⟩
    | (.error e, s) => ⟨{ s with locks := s.locks.release h }, .ended (.error e)⟩
  | .ended _ => w

/-- The sweep proceeds, or something else happens to the store. Nobody else has the handle of the
sweep. -/
inductive Step (before : Instant) (w : ExpirySweep) : ExpirySweep → Prop where
  | advance : Step before w (w.advance before)
  | other (e : StoreEvent) (he : ∀ h ∈ w.phase.handle?, ¬ e.Uses h) :
    Step before w { w with store := (w.store.react e).2 }

def Runs (before : Instant) : ExpirySweep → ExpirySweep → Prop := Relation.ReflTransGen (Step before)

/-- A run in which nothing else happens. -/
def Alone (before : Instant) : ExpirySweep → ExpirySweep → Prop :=
  Relation.ReflTransGen fun w w' => w' = w.advance before

variable {before : Instant} {w w' : ExpirySweep}

theorem Alone.step (h : Alone before (w.advance before) w') : Alone before w w' := .head rfl h

private theorem alone_deleting (before : Instant) (h : Handle) (keys : List PollKey)
    (groups : List (GuildId × List PollKey)) (n : Nat) (s : Store) :
    Alone before ⟨s, .deleting h keys groups n⟩
      (match (keys.mapM (Store.deleteEnded before.ceilSeconds)).outcome s with
      | (.ok deleted, s) =>
        ⟨{ s with locks := s.locks.release h }, .between groups (n + deleted.count true)⟩
      | (.error e, s) => ⟨{ s with locks := s.locks.release h }, .ended (.error e)⟩) := by
  induction keys generalizing n s with
  | nil => exact .step .refl
  | cons key rest ih =>
    refine .step ?_
    rw [List.mapM_cons, outcome_bind]
    simp only [advance]
    rcases (Store.deleteEnded before.ceilSeconds key).outcome s with ⟨_ | removed, s'⟩
    · exact .refl
    · refine (ih _ s').trans ?_
      simp only [outcome_bind]
      rcases (rest.mapM (Store.deleteEnded before.ceilSeconds)).outcome s' with ⟨_ | deleted, s''⟩
      · exact .refl
      · have hcount : n + (removed :: deleted).count true =
            n + (if removed then 1 else 0) + deleted.count true := by
          cases removed <;> simp [Nat.add_assoc, Nat.add_comm 1]
        simp only [outcome_pure, hcount]
        exact .refl

/-- The sweep does to a guild what the deletion of its ended polls does. -/
theorem alone_group (before : Instant) (guild : GuildId) (keys : List PollKey)
    (groups : List (GuildId × List PollKey)) (n : Nat) (s : Store) :
    Alone before ⟨s, .between ((guild, keys) :: groups) n⟩
      (match (Store.deleteEndedOf before.ceilSeconds guild keys).outcome s with
      | (.ok m, s) => ⟨s, .between groups (n + m)⟩
      | (.error e, s) => ⟨s, .ended (.error e)⟩) := by
  refine .step (.step ?_)
  simp only [Store.deleteEndedOf, outcome_bind, outcome_get, outcome_modify, Locks.acquire]
  by_cases hheld : (s.locks.request guild).2.isHeld (s.locks.request guild).1 = true
  · have hturn : advance before (advance before ⟨s, .between ((guild, keys) :: groups) n⟩) =
        ⟨{ s with locks := (s.locks.request guild).2 },
          .deleting (s.locks.request guild).1 keys groups n⟩ := if_pos hheld
    rw [hturn, if_pos hheld]
    refine (alone_deleting before _ keys groups n _).trans ?_
    simp only [outcome_thenRelease, outcome_bind]
    rcases (keys.mapM (Store.deleteEnded before.ceilSeconds)).outcome _ with ⟨_ | deleted, s'⟩ <;>
      exact .refl
  · have hskip : advance before (advance before ⟨s, .between ((guild, keys) :: groups) n⟩) =
        ⟨{ s with locks := (s.locks.request guild).2.giveUp (s.locks.request guild).1 },
          .between groups n⟩ := if_neg hheld
    rw [hskip, if_neg hheld]
    exact .refl

private theorem alone_groups (before : Instant) (groups : List (GuildId × List PollKey)) (n : Nat)
    (s : Store) : Alone before ⟨s, .between groups n⟩
      (match (groups.foldlM (fun n (guild, keys) => do
          pure (n + (← Store.deleteEndedOf before.ceilSeconds guild keys))) n : StoreAction Nat).outcome s
        with
      | (.ok m, s) => ⟨{ s with locks := s.locks.pruneIdle.2 }, .ended (.ok m)⟩
      | (.error e, s) => ⟨s, .ended (.error e)⟩) := by
  induction groups generalizing n s with
  | nil => exact .step .refl
  | cons group rest ih =>
    obtain ⟨guild, keys⟩ := group
    refine (alone_group before guild keys rest n s).trans ?_
    simp only [List.foldlM_cons, bind_assoc, pure_bind, outcome_bind]
    rcases (Store.deleteEndedOf before.ceilSeconds guild keys).outcome s with ⟨_ | m, s'⟩
    · exact .refl
    · exact ih _ s'

/-- A sweep during which nothing else happens does what the deletion of expired polls does. -/
theorem alone_start (s : Store) (before : Instant) :
    Alone before (start s before) ⟨((Store.deleteExpired before).outcome s).2,
      .ended ((Store.deleteExpired before).outcome s).1⟩ := by
  simp only [start, Store.deleteExpired, outcome_bind]
  rcases (look fun t => .ok (t.endedBefore before.ceilSeconds)).outcome s with ⟨_ | keys, s'⟩
  · exact .refl
  · refine (alone_groups before (Store.byGuild keys) 0 s').trans ?_
    dsimp only
    generalize StoreAction.outcome (List.foldlM _ 0 (Store.byGuild keys)) s' = r
    rcases r with ⟨_ | m, s''⟩ <;> exact .refl

structure InControl (w : ExpirySweep) : Prop where
  store : w.store.InOrder
  grouped : w.phase.IsGrouped
  held : ∀ h ∈ w.phase.holder?, w.store.locks.isHeld h

theorem advance_deleting (before : Instant) (hs : w.store.Coherent) {h : Handle} {key : PollKey}
    {keys : List PollKey} {groups : List (GuildId × List PollKey)} {n : Nat}
    (hphase : w.phase = .deleting h (key :: keys) groups n) :
    let removed := w.store.database.tables.removeEnded key before.ceilSeconds
    ∃ c : Caches, c.Coherent removed.2 ∧ w.advance before =
      ⟨⟨⟨removed.2, false⟩, c, w.store.locks⟩,
        .deleting h keys groups (n + if removed.1 then 1 else 0)⟩ := by
  obtain ⟨c, hc, ho⟩ := Store.serves_deleteEnded before.ceilSeconds key w.store hs _ rfl
  refine ⟨c, hc, ?_⟩
  simp only [advance, hphase, ho]
  rfl

theorem InControl.advance (hw : w.InControl) (before : Instant) : (w.advance before).InControl := by
  obtain ⟨s, phase⟩ := w
  obtain ⟨⟨hcoherent, hproper, hsound, hkeys⟩, hgrouped, hheld⟩ := hw
  have hlocks : ∀ {locks : Locks}, locks.Proper → Store.InOrder { s with locks } := fun hl =>
    ⟨⟨hcoherent.isOpen, hcoherent.caches⟩, hl, hsound, hkeys⟩
  cases phase with
  | between groups n =>
    cases groups with
    | nil => exact ⟨hlocks hproper.pruneIdle, trivial, nofun⟩
    | cons group rest =>
      refine ⟨hlocks (hproper.request group.1), ?_, nofun⟩
      exact ⟨hgrouped group List.mem_cons_self, fun other ho => hgrouped other (List.mem_cons_of_mem _ ho)⟩
  | waiting h keys groups n =>
    simp only [ExpirySweep.advance]
    split
    · next hturn =>
      refine ⟨hlocks hproper, hgrouped, fun other ho => ?_⟩
      cases ho
      exact hturn
    · exact ⟨hlocks (hproper.giveUp h), hgrouped.2, nofun⟩
  | deleting h keys groups n =>
    cases keys with
    | nil => exact ⟨hlocks (hproper.release h), hgrouped.2, nofun⟩
    | cons key rest =>
      obtain ⟨c, hc, hadvance⟩ := advance_deleting before (w := ⟨s, _⟩) hcoherent rfl
      rw [hadvance]
      have hremoved : ∀ {P : Tables → Prop}, P s.database.tables → P (s.database.tables.removePoll key) →
          P (s.database.tables.removeEnded key before.ceilSeconds).2 := by
        intro P hsame hgone
        rw [Tables.removeEnded_eq]
        split
        · exact hgone
        · exact hsame
      have hkept : (s.database.tables.removePoll key).Sound :=
        (Tables.thins_removePoll _ key).drops.sound hsound
      exact ⟨⟨⟨rfl, hc⟩, hproper, hremoved hsound hkept, hremoved hkeys (hkeys.removePoll key)⟩,
        ⟨fun other ho => hgrouped.1 other (List.mem_cons_of_mem _ ho), hgrouped.2⟩, hheld⟩
  | ended result => exact ⟨hlocks hproper, trivial, nofun⟩

private theorem InControl.other (hw : w.InControl) {e : StoreEvent}
    (he : ∀ h ∈ w.phase.handle?, ¬ e.Uses h) : InControl { w with store := (w.store.react e).2 } := by
  refine ⟨hw.store.react e, hw.grouped, fun h hh => hw.store.isHeld_react (he h ?_) (hw.held h hh)⟩
  obtain ⟨s, phase⟩ := w
  cases phase with
  | deleting => exact hh
  | between | waiting | ended => cases hh

private theorem InControl.runs (hw : w.InControl) (h : Runs before w w') : w'.InControl := by
  induction h with
  | refl => exact hw
  | tail _ hstep ih =>
    cases hstep with
    | advance => exact ih.advance before
    | other e he => exact ih.other he

private theorem InControl.start {s : Store} (hs : s.InOrder) (before : Instant) :
    (start s before).InControl := by
  have hread : (look fun t => .ok (t.endedBefore before.ceilSeconds)).outcome s =
      (.ok (s.database.tables.endedBefore before.ceilSeconds), s) := by
    rw [outcome_look]
    simp only [Database.read, hs.coherent.isOpen]
    rfl
  rw [ExpirySweep.start, hread]
  refine ⟨hs, fun group hgroup key hkey => ?_, fun h hh => by cases hh⟩
  rw [(Store.mem_byGuild.mp hgroup).2] at hkey
  simpa using (List.mem_filter.mp hkey).2

/-- What the next phase of a sweep does: it deletes no poll, or one that has ended, of a guild whose lock
the sweep holds. -/
theorem advance_cases (hw : w.InControl) (before : Instant) :
    ((w.advance before).store.database.tables = w.store.database.tables ∧
        (w.advance before).phase.deleted = w.phase.deleted) ∨
      ∃ h key r, w.phase.holder? = some h ∧ h.guild = key.guild ∧
        w.store.database.tables.row? key = some r ∧ before.IsPast r.endAt ∧
        w.store.database.tables.Deletes (· = key) 1 (w.advance before).store.database.tables ∧
        (w.advance before).phase.deleted = w.phase.deleted + 1 := by
  obtain ⟨s, phase⟩ := w
  cases phase with
  | between groups n =>
    cases groups with
    | nil => exact .inl ⟨rfl, rfl⟩
    | cons group rest => exact .inl ⟨rfl, rfl⟩
  | waiting h keys groups n =>
    refine .inl ?_
    simp only [ExpirySweep.advance]
    split <;> exact ⟨rfl, rfl⟩
  | deleting h keys groups n =>
    cases keys with
    | nil => exact .inl ⟨rfl, rfl⟩
    | cons key rest =>
      obtain ⟨c, -, hadvance⟩ := advance_deleting before (w := ⟨s, _⟩) hw.store.coherent rfl
      rw [hadvance]
      simp only [Tables.removeEnded_eq]
      split
      · next hended =>
        obtain ⟨r, hr, hend⟩ := Tables.hasEnded_iff.mpr hended
        exact .inr ⟨h, key, r, rfl, (hw.grouped.1 key List.mem_cons_self).symm, hr,
          Instant.isPast_iff_lt_ceilSeconds.mpr hend, Tables.deletes_removePoll hr, rfl⟩
      · exact .inl ⟨rfl, rfl⟩
  | ended result => exact .inl ⟨rfl, rfl⟩

/-- Whatever happens between its phases, a sweep deletes a poll only if this one ended before the given
instant at that moment, holding the lock of its guild, and deletes all that is stored about the poll and
nothing else. A sweep during which nothing else happens deletes all such polls but those of guilds whose
locks are not free, and counts them. None goes before its time of retention is over. -/
theorem deletes_only_expired (earlier : List StoreEvent) (before : Instant) :
    let s := Store.fresh.after earlier
    (∀ w, Runs before (start s before) w → (w.advance before).store.Coherent ∧
      ((w.advance before).store.database.tables = w.store.database.tables ∧
          (w.advance before).phase.deleted = w.phase.deleted ∨
        ∃ h key r, w.phase.holder? = some h ∧ w.store.locks.isHeld h ∧ h.guild = key.guild ∧
          w.store.database.tables.row? key = some r ∧ before.IsPast r.endAt ∧
          w.store.database.tables.Deletes (· = key) 1 (w.advance before).store.database.tables ∧
          (w.advance before).phase.deleted = w.phase.deleted + 1 ∧
          ∀ (now : Instant) (retention : Span), before = now.minus retention →
            retention.nanos < now.total - r.endAt * 1000000000)) ∧
    ∃ n s', (Store.deleteExpired before).outcome s = (.ok n, s') ∧
      Alone before (start s before) ⟨s', .ended (.ok n)⟩ ∧
      s.database.tables.Deletes (fun key => s.locks.lockOf key.guild = .free ∧
        ∃ r, s.database.tables.row? key = some r ∧ before.IsPast r.endAt) n s'.database.tables ∧
      n + s'.database.tables.polls.length = s.database.tables.polls.length ∧
      ∀ (scheduler : Scheduler) (now : Instant), before = now.minus scheduler.config.retention →
        Service.outcome (Service.sweepExpired now) ⟨s, scheduler⟩ =
          (.ok n, ⟨s', { scheduler with statistics := { scheduler.statistics with
            pollsDeleted := scheduler.statistics.pollsDeleted + .ofNat n } }⟩) ∧
        ∀ key r, s.database.tables.row? key = some r →
          now.total - r.endAt * 1000000000 ≤ scheduler.config.retention.nanos →
          s'.database.tables.slice key = s.database.tables.slice key := by
  intro s
  have hs : s.InOrder := Store.inOrder_after earlier
  have hretained : ∀ {t : Tables} {key r}, t.Sound → t.row? key = some r → before.IsPast r.endAt →
      ∀ (now : Instant) (retention : Span), before = now.minus retention →
        retention.nanos < now.total - r.endAt * 1000000000 := by
    rintro t key r ht hr hpast now retention rfl
    exact Instant.lt_of_isPast_minus (ht.minSeconds_le_endAt hr) hpast
  refine ⟨fun w hrun => ?_, ?_⟩
  · have hw := (InControl.start hs before).runs hrun
    refine ⟨(hw.advance before).store.coherent, (advance_cases hw before).imp_right ?_⟩
    rintro ⟨h, key, r, hholder, hguild, hr, hpast, hdeletes, hcount⟩
    exact ⟨h, key, r, hholder, hw.held h hholder, hguild, hr, hpast, hdeletes, hcount,
      hretained hw.store.sound hr hpast⟩
  · obtain ⟨n, s', ho, hdeletes⟩ := Store.outcome_deleteExpired hs before
    refine ⟨n, s', ho, ?_, hdeletes, hdeletes.count hs.keys.polls, fun scheduler now hbefore => ⟨?_, ?_⟩⟩
    · have halone := alone_start s before
      rwa [ho] at halone
    · simp only [Service.sweepExpired, Service.outcome_bind, Service.outcome_get,
        Service.outcome_onStore, ← hbefore, ho]
      rfl
    · intro key r hr hrecent
      refine hdeletes.kept key ?_
      rintro ⟨-, r', hr', hpast⟩
      obtain rfl : r = r' := Option.some.inj (hr.symm.trans hr')
      have hlong := hretained hs.sound hr hpast now _ hbefore
      omega

def lockedLunch : Store := Store.fresh.after (Store.inserting .lunch)

def lateSweep : ExpirySweep :=
  let w := (start lockedLunch .latest).advance .latest
  advance .latest { w with store := (w.store.react (.release ⟨1, 0⟩)).2 }

/-- The poll goes when the lock is given up. A sweep that nobody lets in spares it. -/
theorem deletes_only_expired_of_locked :
    Runs .latest (start lockedLunch .latest) lateSweep ∧
    (∃ h key r, lateSweep.store.locks.isHeld h ∧ h.guild = key.guild ∧
      lateSweep.store.database.tables.row? key = some r ∧ Instant.latest.IsPast r.endAt ∧
      (lateSweep.advance .latest).store.database.tables.slice key = .nothing) ∧
    ∃ n s', (Store.deleteExpired .latest).outcome lockedLunch = (.ok n, s') ∧
      s'.database.tables.slice ⟨1, 7⟩ = lockedLunch.database.tables.slice ⟨1, 7⟩ := by
  have hline : ((start lockedLunch .latest).advance .latest).phase.handle? = some ⟨1, 1⟩ := by
    decide +kernel
  have hrun : Runs .latest (start lockedLunch .latest) lateSweep := by
    refine ((Relation.ReflTransGen.refl.tail .advance).tail (.other (.release ⟨1, 0⟩) ?_)).tail .advance
    intro h hh
    rw [hline] at hh
    cases hh
    exact nofun
  obtain ⟨hphases, n, s', ho, -, hdeletes, -⟩ := deletes_only_expired (Store.inserting .lunch) .latest
  refine ⟨hrun, ?_, n, s', ho, hdeletes.kept ⟨1, 7⟩ fun hkey => ?_⟩
  · rcases (hphases lateSweep hrun).2 with ⟨-, hsame⟩ | ⟨h, key, r, -, hheld, hguild, hr, hpast, hgone, -⟩
    · have hcounted : (lateSweep.advance .latest).phase.deleted ≠ lateSweep.phase.deleted := by
        decide +kernel
      exact absurd hsame hcounted
    · exact ⟨h, key, r, hheld, hguild, hr, hpast, hgone.gone key rfl⟩
  · have hbusy : lockedLunch.locks.lockOf 1 ≠ .free := by decide +kernel
    exact hbusy hkey.1

end ExpirySweep
end PollKeeper
