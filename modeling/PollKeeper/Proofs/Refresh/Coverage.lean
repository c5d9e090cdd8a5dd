import PollKeeper.Proofs.Refresh.Phases

/-!
# Covered polls

Why the latest change of a poll need not be found by a sweep: its refresh is under way or kept, or its
text was delivered, or a refresh of it was dropped since. The invariant says that a poll without an
unseen edit is covered, and three lemmas say which steps keep it: those that change no poll, those that
only observe polls, and those that change one.
-/

namespace PollKeeper

open Time Service

theorem PollRow.hasUnseenEdit_eq_false {r : PollRow} :
    r.hasUnseenEdit = false ↔ ∃ seen, r.editSeenAt = some seen ∧ r.editedAt ≤ seen := by
  simp only [hasUnseenEdit]
  cases r.editSeenAt with
  | none => simp
  | some seen => simp

namespace TickPhase

def attempt? : TickPhase → Option (Attempt × Nat)
  | posting a version => some (a, version)
  | answered a version => some (a, version)
  | _ => none

def WillShow (key : PollKey) (version : Nat) : TickPhase → Prop
  | popped r => r.key = key
  | posting a v => a.posting.key = key ∧ v = version
  | _ => False

end TickPhase

namespace World

variable {w w' : World} {key : PollKey}

/-- The edits that the tick or a sweep may still acknowledge. -/
def observed (w : World) : List PollEdit :=
  (w.tick.attempt?.map (·.1.edit)).toList ++ w.sweeps.flatMap (·.found)

def texts (w : World) : List Delivery :=
  w.delivered ++ (w.tick.attempt?.map fun (a, version) => ⟨a.posting, version⟩).toList

/-- Why the current version of a poll need not be found by a sweep. -/
inductive Covered (w : World) (key : PollKey) : Prop where
  | queued (h : key ∈ w.scheduler.queue.keys)
  | kept (h : key ∈ w.tables.pending)
  | inFlight (h : w.scheduler.inFlight = some key) (ht : w.tick.WillShow key (w.version key))
  | delivered (d : Delivery) (hd : d ∈ w.delivered) (hkey : d.posting.key = key)
      (hversion : d.version = w.version key)
  | dropped (h : (key, w.version key) ∈ w.dropped)

/-- Some sweep has asked for the refresh of an edit, which it will acknowledge. -/
def HasAsked (w : World) (key : PollKey) (stamp : Int) : Prop :=
  ∃ p ∈ w.sweeps, ∃ e ∈ p.asked, e.key = key ∧ e.editedAt.millis = stamp

namespace Covered

theorem mono (h : w.Covered key) (hchanges : w'.changes = w.changes)
    (hqueue : key ∈ w.scheduler.queue.keys → w'.Covered key)
    (hpending : key ∈ w.tables.pending → w'.Covered key)
    (hflight : w.scheduler.inFlight = some key → w.tick.WillShow key (w.version key) →
      w'.Covered key)
    (hdelivered : ∀ d ∈ w.delivered, d ∈ w'.delivered)
    (hdropped : ∀ x ∈ w.dropped, x ∈ w'.dropped) : w'.Covered key := by
  have hversion : w'.version key = w.version key := by rw [version, version, hchanges]
  cases h with
  | queued h => exact hqueue h
  | kept h => exact hpending h
  | inFlight h ht => exact hflight h ht
  | delivered d hd hkey hd' => exact .delivered d (hdelivered d hd) hkey (hd'.trans hversion.symm)
  | dropped h => exact .dropped (hversion ▸ hdropped _ h)

end Covered

/-- A row that stands for the same version of its poll. Its note of the last acknowledged edit may
have changed to an edit that was observed; if that is the current one, the poll is covered. -/
def SameVersion (w : World) (t : Tables) (key : PollKey) (r : PollRow) : Prop :=
  ∃ old, w.tables.row? key = some old ∧ r.editedAt = old.editedAt ∧
    t.poll? key = w.tables.poll? key ∧
    (r.editSeenAt = old.editSeenAt ∨ ∃ e ∈ w.observed, e.key = key ∧
      r.editSeenAt = some e.editedAt.millis ∧ (e.editedAt.millis = old.editedAt → w.Covered key))

/-- A step that changes no poll, reads none and delivers nothing. -/
structure Quiet (w w' : World) : Prop where
  coherent : w'.service.store.Coherent
  distinct : (w'.tables.polls.map (·.key)).Nodup
  sound : w'.scheduler.queue.Sound
  changes : w'.changes = w.changes
  row : ∀ key r, w'.tables.row? key = some r → w.SameVersion w'.tables key r
  tick : w'.tick = w.tick ∨ w'.tick.attempt? = none
  sweeps : ∀ p' ∈ w'.sweeps, ∃ p ∈ w.sweeps, (∀ e ∈ p'.found, e ∈ p.found) ∧
    ∀ e ∈ p'.asked, e ∈ p.asked ∨ w'.Covered e.key
  delivered : w'.delivered = w.delivered
  covered : ∀ key r, w'.tables.row? key = some r → w.Covered key → w'.Covered key

namespace Quiet

theorem attempt (h : w.Quiet w') {x : Attempt × Nat} (hx : w'.tick.attempt? = some x) :
    w.tick.attempt? = some x := by
  rcases h.tick with ht | ht
  · rwa [← ht]
  · rw [ht] at hx
    cases hx

theorem mem_observed (h : w.Quiet w') {e : PollEdit} (he : e ∈ w'.observed) : e ∈ w.observed := by
  rcases List.mem_append.mp he with he | he
  · refine List.mem_append_left _ ?_
    obtain ⟨x, hx, hxe⟩ := Option.map_eq_some_iff.mp (Option.mem_toList.mp he)
    exact Option.mem_toList.mpr (Option.map_eq_some_iff.mpr ⟨x, h.attempt hx, hxe⟩)
  · obtain ⟨p', hp', he⟩ := List.mem_flatMap.mp he
    obtain ⟨p, hp, hfound, -⟩ := h.sweeps p' hp'
    exact List.mem_append_right _ (List.mem_flatMap.mpr ⟨p, hp, hfound e he⟩)

theorem mem_texts (h : w.Quiet w') {d : Delivery} (hd : d ∈ w'.texts) : d ∈ w.texts := by
  rcases List.mem_append.mp hd with hd | hd
  · exact List.mem_append_left _ (h.delivered ▸ hd)
  · refine List.mem_append_right _ ?_
    obtain ⟨x, hx, hxd⟩ := Option.map_eq_some_iff.mp (Option.mem_toList.mp hd)
    exact Option.mem_toList.mpr (Option.map_eq_some_iff.mpr ⟨x, h.attempt hx, hxd⟩)

end Quiet

theorem sameVersion_of_row {t : Tables} {r : PollRow} (hrow : t.row? key = w.tables.row? key)
    (hpoll : t.poll? key = w.tables.poll? key) (hr : t.row? key = some r) :
    w.SameVersion t key r := ⟨r, hrow ▸ hr, rfl, hpoll, .inl rfl⟩

/-- A step that changes one poll. Its stamp is later than that of the change before. -/
structure Changed (w w' : World) (key : PollKey) (stamp : Int) : Prop where
  coherent : w'.service.store.Coherent
  tables : w.tables.Changes key stamp w'.tables
  scheduler : w'.scheduler = w.scheduler
  tick : w'.tick = w.tick
  sweeps : w'.sweeps = w.sweeps
  delivered : w'.delivered = w.delivered
  dropped : w'.dropped = w.dropped
  self : w'.changes key = stamp :: w.changes key
  others : ∀ other ≠ key, w'.changes other = w.changes other
  later : ∀ last ∈ (w.changes key).head?, last < stamp

theorem mem_pending_of_slice {t t' : Tables} (h : t'.slice key = t.slice key)
    (hk : key ∈ t.pending) : key ∈ t'.pending := (Tables.mem_pending_congr h).mpr hk

namespace Changed

variable {stamp : Int} {other : PollKey}

private theorem version_self (hc : w.Changed w' key stamp) : w'.version key = w.version key + 1 := by
  rw [version, version, hc.self, List.length_cons]

theorem version_other (hc : w.Changed w' key stamp) (ho : other ≠ key) :
    w'.version other = w.version other := by
  rw [version, version, hc.others other ho]

private theorem row_other (hc : w.Changed w' key stamp) (ho : other ≠ key) :
    w'.tables.row? other = w.tables.row? other :=
  congrArg PollSlice.row (hc.tables.others other ho)

private theorem observed_eq (hc : w.Changed w' key stamp) : w'.observed = w.observed := by
  rw [observed, observed, hc.tick, hc.sweeps]

private theorem texts_eq (hc : w.Changed w' key stamp) : w'.texts = w.texts := by
  rw [texts, texts, hc.tick, hc.delivered]

private theorem covered_other (hc : w.Changed w' key stamp) (ho : other ≠ key)
    (hcovered : w.Covered other) : w'.Covered other := by
  have hversion := hc.version_other ho
  cases hcovered with
  | queued hq => exact .queued (hc.scheduler ▸ hq)
  | kept hp => exact .kept (mem_pending_of_slice (hc.tables.others other ho) hp)
  | inFlight hf ht =>
    refine .inFlight (hc.scheduler ▸ hf) ?_
    rw [hc.tick, hversion]
    exact ht
  | delivered d hd hkey hd' =>
    exact .delivered d (hc.delivered ▸ hd) hkey (hd'.trans hversion.symm)
  | dropped hd =>
    refine .dropped ?_
    rw [hversion, hc.dropped]
    exact hd

end Changed

end World

variable [ZoneClocks]

/-- A text is that of the stored poll. -/
def Tables.Shows (t : Tables) (p : Posting) : Prop :=
  ∃ poll, t.poll? p.key = .ok (some poll) ∧ poll.message? = some p.text

namespace World

variable {w w' : World} {key : PollKey}

structure Invariant (w : World) : Prop where
  coherent : w.service.store.Coherent
  distinct : (w.tables.polls.map (·.key)).Nodup
  sound : w.scheduler.queue.Sound
  stamped : ∀ key r, w.tables.row? key = some r → (w.changes key).head? = some r.editedAt
  seen_le : ∀ key r, w.tables.row? key = some r → ∀ seen, r.editSeenAt = some seen →
    seen ≤ r.editedAt
  observed_le : ∀ e ∈ w.observed, ∃ last, (w.changes e.key).head? = some last ∧
    e.editedAt.millis ≤ last
  attempt : ∀ a version, w.tick.attempt? = some (a, version) →
    a.refresh.key = a.posting.key ∧ a.edit.key = a.posting.key ∧
      ((w.changes a.posting.key).head? = some a.edit.editedAt.millis →
        version = w.version a.posting.key)
  answered : ∀ a version, w.tick = .answered a version → ⟨a.posting, version⟩ ∈ w.delivered
  version_le : ∀ d ∈ w.texts, d.version ≤ w.version d.posting.key
  shows : ∀ d ∈ w.texts, d.version = w.version d.posting.key →
    ∀ r, w.tables.row? d.posting.key = some r → w.tables.Shows d.posting
  covered : ∀ key r, w.tables.row? key = some r →
    r.hasUnseenEdit = false ∨ w.HasAsked key r.editedAt → w.Covered key

theorem invariant_fresh (config : SchedulerConfig) : (fresh config).Invariant := by
  exact {
    coherent := Store.coherent_fresh
    distinct := .nil
    sound := RefreshQueue.sound_empty
    stamped := fun key r h => by cases h
    seen_le := fun key r h => by cases h
    observed_le := fun e h => by cases h
    attempt := fun a version h => by cases h
    answered := fun a version h => by cases h
    version_le := fun d h => by cases h
    shows := fun d h => by cases h
    covered := fun key r h => by cases h }

/-- An acknowledged edit is not later than the last change. -/
theorem Invariant.seen_le_of_sameVersion (h : w.Invariant) {t : Tables} {r : PollRow}
    (hr : w.SameVersion t key r) {seen : Int} (hseen : r.editSeenAt = some seen) :
    seen ≤ r.editedAt := by
  obtain ⟨old, hold, hedited, -, hnote⟩ := hr
  rw [hedited]
  rcases hnote with hnote | ⟨e, he, rfl, hnote, -⟩
  · exact h.seen_le key old hold seen (hnote ▸ hseen)
  · obtain ⟨last, hlast, hle⟩ := h.observed_le e he
    rw [h.stamped e.key old hold] at hlast
    obtain rfl := Option.some.inj hlast
    rw [hnote] at hseen
    obtain rfl := Option.some.inj hseen
    exact hle

theorem Invariant.quiet (h : w.Invariant) (hq : w.Quiet w') : w'.Invariant := by
  have hversion : ∀ key, w'.version key = w.version key := by
    intro key
    rw [version, version, hq.changes]
  refine {
    coherent := hq.coherent
    distinct := hq.distinct
    sound := hq.sound
    stamped := ?stamped
    seen_le := ?seen_le
    observed_le := ?observed_le
    attempt := ?attempt
    answered := ?answered
    version_le := ?version_le
    shows := ?shows
    covered := ?covered }
  case stamped =>
    intro key r hr
    obtain ⟨old, hold, hedited, -⟩ := hq.row key r hr
    rw [hq.changes, hedited]
    exact h.stamped key old hold
  case seen_le =>
    intro key r hr seen hseen
    exact h.seen_le_of_sameVersion (hq.row key r hr) hseen
  case observed_le =>
    intro e he
    rw [hq.changes]
    exact h.observed_le e (hq.mem_observed he)
  case attempt =>
    intro a version ha
    rw [hq.changes, hversion]
    exact h.attempt a version (hq.attempt ha)
  case answered =>
    intro a version ha
    rw [hq.delivered]
    rcases hq.tick with ht | ht
    · exact h.answered a version (ht ▸ ha)
    · rw [ha] at ht
      cases ht
  case version_le =>
    intro d hd
    rw [hversion]
    exact h.version_le d (hq.mem_texts hd)
  case shows =>
    intro d hd hd' r hr
    obtain ⟨old, hold, -, hpoll, -⟩ := hq.row d.posting.key r hr
    rw [hversion] at hd'
    obtain ⟨p, hp, htext⟩ := h.shows d (hq.mem_texts hd) hd' old hold
    exact ⟨p, hpoll.trans hp, htext⟩
  case covered =>
    intro key r hr hseen
    obtain ⟨old, hold, hedited, -, hnote⟩ := hq.row key r hr
    rcases hseen with hseen | ⟨p, hp, e, he, rfl, hstamp⟩
    · obtain ⟨seen, hsome, hle⟩ := PollRow.hasUnseenEdit_eq_false.mp hseen
      refine hq.covered key r hr ?_
      rcases hnote with hnote | ⟨e, he, rfl, hnote, hcovered⟩
      · refine h.covered key old hold (.inl (PollRow.hasUnseenEdit_eq_false.mpr ⟨seen, ?_, ?_⟩))
        · exact hnote ▸ hsome
        · exact hedited ▸ hle
      · rw [hnote] at hsome
        obtain rfl := Option.some.inj hsome
        have hge := h.seen_le_of_sameVersion (hq.row e.key r hr) hnote
        exact hcovered (by omega)
    · obtain ⟨p', hp', -, hasked⟩ := hq.sweeps p hp
      rcases hasked e he with he' | hcovered
      · refine hq.covered e.key r hr (h.covered e.key old hold (.inr ?_))
        exact ⟨p', hp', e, he', rfl, hstamp.trans hedited⟩
      · exact hcovered

theorem Invariant.quiet_of_tables (h : w.Invariant) (hcoherent : w'.service.store.Coherent)
    (htables : w'.tables = w.tables) (hsound : w'.scheduler.queue.Sound)
    (hchanges : w'.changes = w.changes) (htick : w'.tick = w.tick ∨ w'.tick.attempt? = none)
    (hsweeps : w'.sweeps = w.sweeps) (hdelivered : w'.delivered = w.delivered)
    (hcovered : ∀ key, w.Covered key → w'.Covered key) : w.Quiet w' where
  coherent := hcoherent
  distinct := htables ▸ h.distinct
  sound := hsound
  changes := hchanges
  row _ _ hr := sameVersion_of_row (htables ▸ rfl) (htables ▸ rfl) hr
  tick := htick
  sweeps p hp := ⟨p, hsweeps ▸ hp, fun _ he => he, fun _ he => .inl he⟩
  delivered := hdelivered
  covered key _ _ := hcovered key

/-- A step that changes neither the tables nor the queue. What it observes are current edits, and the
texts that it renders are those of the stored polls. -/
structure Observes (w w' : World) : Prop where
  coherent : w'.service.store.Coherent
  tables : w'.tables = w.tables
  scheduler : w'.scheduler = w.scheduler
  changes : w'.changes = w.changes
  observed : ∀ e ∈ w'.observed, e ∈ w.observed ∨
    (w.changes e.key).head? = some e.editedAt.millis
  attempt : ∀ a version, w'.tick.attempt? = some (a, version) →
    w.tick.attempt? = some (a, version) ∨
      a.refresh.key = a.posting.key ∧ a.edit.key = a.posting.key ∧
        version = w.version a.posting.key
  answered : ∀ a version, w'.tick = .answered a version → ⟨a.posting, version⟩ ∈ w'.delivered
  texts : ∀ d ∈ w'.texts, d ∈ w.texts ∨
    d.version = w.version d.posting.key ∧ w.tables.Shows d.posting
  asked : ∀ key stamp, w'.HasAsked key stamp → w.HasAsked key stamp
  willShow : ∀ key, w.tick.WillShow key (w.version key) →
    w'.tick.WillShow key (w.version key) ∨
      ∃ d ∈ w'.delivered, d.posting.key = key ∧ d.version = w.version key
  delivered : ∀ d ∈ w.delivered, d ∈ w'.delivered
  dropped : w'.dropped = w.dropped

theorem Observes.version_eq (ho : w.Observes w') (key : PollKey) :
    w'.version key = w.version key := by
  rw [version, version, ho.changes]

private theorem Observes.covered (ho : w.Observes w') (h : w.Covered key) : w'.Covered key := by
  refine h.mono ho.changes (fun hq => ?_) (fun hp => ?_) (fun hf ht => ?_) ho.delivered
    fun _ hx => ho.dropped ▸ hx
  · exact .queued (ho.scheduler ▸ hq)
  · exact .kept (ho.tables ▸ hp)
  · rcases ho.willShow key ht with ht' | ⟨d, hd, hkey, hversion⟩
    · exact .inFlight (ho.scheduler ▸ hf) ((ho.version_eq key).symm ▸ ht')
    · exact .delivered d hd hkey (hversion.trans (ho.version_eq key).symm)

theorem Invariant.observes (h : w.Invariant) (ho : w.Observes w') : w'.Invariant := by
  refine {
    coherent := ho.coherent
    distinct := ho.tables ▸ h.distinct
    sound := ho.scheduler ▸ h.sound
    stamped := ?stamped
    seen_le := ?seen_le
    observed_le := ?observed_le
    attempt := ?attempt
    answered := ho.answered
    version_le := ?version_le
    shows := ?shows
    covered := ?covered }
  case stamped =>
    rw [ho.tables, ho.changes]
    exact h.stamped
  case seen_le =>
    rw [ho.tables]
    exact h.seen_le
  case observed_le =>
    intro e he
    rw [ho.changes]
    rcases ho.observed e he with hold | hcurrent
    · exact h.observed_le e hold
    · exact ⟨_, hcurrent, Int.le_refl _⟩
  case attempt =>
    intro a v ha
    rw [ho.changes, ho.version_eq]
    rcases ho.attempt a v ha with hold | ⟨hrefresh, hedit, hcurrent⟩
    · exact h.attempt a v hold
    · exact ⟨hrefresh, hedit, fun _ => hcurrent⟩
  case version_le =>
    intro d hd
    rw [ho.version_eq]
    rcases ho.texts d hd with hold | ⟨hcurrent, -⟩
    · exact h.version_le d hold
    · exact Nat.le_of_eq hcurrent
  case shows =>
    intro d hd hd' r hr
    rw [ho.version_eq] at hd'
    rw [ho.tables] at hr ⊢
    rcases ho.texts d hd with hold | ⟨-, hshows⟩
    · exact h.shows d hold hd' r hr
    · exact hshows
  case covered =>
    rw [ho.tables]
    intro key r hr hknown
    exact ho.covered (h.covered key r hr (hknown.imp_right (ho.asked key _)))

namespace Changed

variable {stamp : Int}

/-- The change is later than everything that was observed of the poll. -/
theorem observed_lt (hc : w.Changed w' key stamp) (h : w.Invariant) {e : PollEdit}
    (he : e ∈ w.observed) (hkey : e.key = key) : e.editedAt.millis < stamp := by
  subst hkey
  obtain ⟨last, hlast, hle⟩ := h.observed_le e he
  exact Int.lt_of_le_of_lt hle (hc.later last hlast)

private theorem row_self (hc : w.Changed w' key stamp) (h : w.Invariant) {r : PollRow}
    (hr : w'.tables.row? key = some r) :
    r.editedAt = stamp ∧ ∀ seen, r.editSeenAt = some seen → seen < stamp := by
  obtain ⟨row, hrow, hedited, hseen⟩ := hc.tables.row
  obtain rfl := Option.some.inj (hrow.symm.trans hr)
  refine ⟨hedited, fun seen hsome => ?_⟩
  rcases hseen with hnone | ⟨old, hold, hsame⟩
  · rw [hnone] at hsome
    cases hsome
  · have hle := h.seen_le key old hold seen (hsame ▸ hsome)
    exact Int.lt_of_le_of_lt hle (hc.later _ (h.stamped key old hold))

private theorem not_hasAsked (hc : w.Changed w' key stamp) (h : w.Invariant) : ¬ w'.HasAsked key stamp := by
  rintro ⟨p, hp, e, he, hkey, hstamp⟩
  have hfound : e ∈ p.found := by
    cases p with
    | askedEdited started found => exact he
    | edited | acknowledged | ended | askedEnded => cases he
  have hobserved : e ∈ w.observed :=
    List.mem_append_right _ (List.mem_flatMap.mpr ⟨p, hc.sweeps ▸ hp, hfound⟩)
  have hlt := hc.observed_lt h hobserved hkey
  omega

end Changed

theorem Invariant.changed (h : w.Invariant) {stamp : Int} (hc : w.Changed w' key stamp) :
    w'.Invariant := by
  refine {
    coherent := hc.coherent
    distinct := hc.tables.distinct h.distinct
    sound := hc.scheduler ▸ h.sound
    stamped := ?stamped
    seen_le := ?seen_le
    observed_le := ?observed_le
    attempt := ?attempt
    answered := ?answered
    version_le := ?version_le
    shows := ?shows
    covered := ?covered }
  case stamped =>
    intro k r hr
    by_cases hk : k = key
    · subst hk
      rw [hc.self, (hc.row_self h hr).1]
      rfl
    · rw [hc.others k hk]
      exact h.stamped k r (hc.row_other hk ▸ hr)
  case seen_le =>
    intro k r hr seen hsome
    by_cases hk : k = key
    · subst hk
      obtain ⟨hedited, hunseen⟩ := hc.row_self h hr
      exact hedited ▸ Int.le_of_lt (hunseen seen hsome)
    · exact h.seen_le k r (hc.row_other hk ▸ hr) seen hsome
  case observed_le =>
    intro e he
    rw [hc.observed_eq] at he
    by_cases hk : e.key = key
    · exact ⟨stamp, by rw [hk, hc.self]; rfl, Int.le_of_lt (hc.observed_lt h he hk)⟩
    · rw [hc.others e.key hk]
      exact h.observed_le e he
  case attempt =>
    intro a v ha
    rw [hc.tick] at ha
    obtain ⟨hrefresh, hedit, hcurrent⟩ := h.attempt a v ha
    refine ⟨hrefresh, hedit, fun hhead => ?_⟩
    by_cases hk : a.posting.key = key
    · -- The text shows an older version, so its edit is not the current one.
      have hobserved : a.edit ∈ w.observed := by
        rw [observed, ha]
        exact List.mem_append_left _ (List.mem_singleton_self _)
      have hlt := hc.observed_lt h hobserved (hedit.trans hk)
      rw [hk, hc.self] at hhead
      have heq : stamp = a.edit.editedAt.millis := Option.some.inj hhead
      omega
    · rw [hc.version_other hk]
      rw [hc.others _ hk] at hhead
      exact hcurrent hhead
  case answered =>
    intro a v ha
    rw [hc.delivered]
    exact h.answered a v (hc.tick ▸ ha)
  case version_le =>
    intro d hd
    have hle := h.version_le d (hc.texts_eq ▸ hd)
    by_cases hk : d.posting.key = key
    · rw [hk] at hle ⊢
      rw [hc.version_self]
      omega
    · rwa [hc.version_other hk]
  case shows =>
    intro d hd hd' r hr
    rw [hc.texts_eq] at hd
    by_cases hk : d.posting.key = key
    · have hle := h.version_le d hd
      rw [hk] at hle hd'
      rw [hc.version_self] at hd'
      omega
    · rw [hc.version_other hk] at hd'
      obtain ⟨p, hp, htext⟩ := h.shows d hd hd' r (hc.row_other hk ▸ hr)
      exact ⟨p, (Tables.poll?_congr (hc.tables.others _ hk)).trans hp, htext⟩
  case covered =>
    intro k r hr hknown
    by_cases hk : k = key
    · subst hk
      obtain ⟨hedited, hunseen⟩ := hc.row_self h hr
      rcases hknown with hseen | hasked
      · obtain ⟨seen, hsome, hle⟩ := PollRow.hasUnseenEdit_eq_false.mp hseen
        have hlt := hunseen seen hsome
        omega
      · exact absurd (hedited ▸ hasked) (hc.not_hasAsked h)
    · refine hc.covered_other hk (h.covered k r (hc.row_other hk ▸ hr) (hknown.imp_right ?_))
      rintro ⟨p, hp, he⟩
      exact ⟨p, hc.sweeps ▸ hp, he⟩

end World
end PollKeeper
