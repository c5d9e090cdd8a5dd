import PollKeeper.Proofs.Poll.Validity
import PollKeeper.Proofs.Refresh.Coverage
import PollKeeper.Time.ZoneHistories

/-!
# No update of a poll is lost

The latest change of a stored poll is still to be seen, or its refresh is under way or kept, or its text
was delivered, or a refresh of it was dropped since. What makes this last is that an edit is acknowledged
only after the refresh that shows it was asked for or delivered, and that the stamp of an edit is read
together with the poll.
-/

namespace PollKeeper

open Time Service

namespace World

variable {w w' : World} {key : PollKey}

theorem mem_dropped_noteDropped {keys : List PollKey} (hk : key ∈ keys) :
    (key, w.version key) ∈ (w.noteDropped keys).dropped :=
  List.mem_append_right _ (List.mem_map_of_mem hk)

/-- Edits may be acknowledged if they were observed and the current ones among them are covered. -/
theorem sameVersion_markSeen {edits : List PollEdit} (hobserved : ∀ e ∈ edits, e ∈ w.observed)
    (hcovered : ∀ e ∈ edits, ∀ old, w.tables.row? e.key = some old →
      e.editedAt.millis = old.editedAt → w.Covered e.key) {r : PollRow}
    (hr : (w.tables.markSeen (edits.map (·.toStamp))).2.row? key = some r) :
    w.SameVersion (w.tables.markSeen (edits.map (·.toStamp))).2 key r := by
  rw [Tables.row?_markSeen] at hr
  obtain ⟨old, hold, rfl⟩ := Option.map_eq_some_iff.mp hr
  have hkey := Tables.key_of_row? hold
  obtain ⟨seen, hseen, hnote⟩ := old.afterSeen_eq (edits.map (·.toStamp))
  have hpoll := (w.tables.sameContent_markSeen (edits.map (·.toStamp))).poll? key
  rw [hseen]
  refine ⟨old, hold, rfl, hpoll, hnote.imp_right ?_⟩
  rintro ⟨stamp, hstamp, hstampkey, rfl⟩
  obtain ⟨e, he, rfl⟩ := List.mem_map.mp hstamp
  have hekey : e.key = key := hstampkey.trans hkey
  refine ⟨e, hobserved e he, hekey, rfl, fun hcurrent => ?_⟩
  exact hekey ▸ hcovered e he old (hekey ▸ hold) hcurrent

private theorem sameVersion_markFinal {keys : List PollKey} {r : PollRow}
    (hr : (w.tables.markFinal keys).2.row? key = some r) :
    w.SameVersion (w.tables.markFinal keys).2 key r := by
  have hpoll := (w.tables.sameContent_markFinal keys).poll? key
  rw [Tables.row?_markFinal] at hr
  obtain ⟨old, hold, rfl⟩ := Option.map_eq_some_iff.mp hr
  split
  · exact ⟨old, hold, rfl, hpoll, .inl rfl⟩
  · exact ⟨old, hold, rfl, hpoll, .inl rfl⟩

theorem sameVersion_of_thins {t : Tables} (h : w.tables.Thins t) {r : PollRow}
    (hr : t.row? key = some r) : w.SameVersion t key r := by
  rcases h.slice key with hslice | hgone
  · exact sameVersion_of_row (congrArg PollSlice.row hslice) (Tables.poll?_congr hslice) hr
  · cases hr.symm.trans (congrArg PollSlice.row hgone)

theorem mem_pending_of_thins {t : Tables} (h : w.tables.Thins t) {r : PollRow}
    (hr : t.row? key = some r) (hk : key ∈ w.tables.pending) : key ∈ t.pending := by
  rcases h.slice key with hslice | hgone
  · exact mem_pending_of_slice hslice hk
  · cases hr.symm.trans (congrArg PollSlice.row hgone)

private theorem changed_noteChange {store : Store} {stamp : Int} (hcoherent : store.Coherent)
    (hchanged : w.tables.Changes key stamp store.database.tables)
    (hstamp : ∀ last ∈ (w.changes key).head?, last < stamp) :
    w.Changed ({ w with service := { w.service with store } }.noteChange (some (key, stamp))) key
      stamp where
  coherent := hcoherent
  tables := hchanged
  scheduler := rfl
  tick := rfl
  sweeps := rfl
  delivered := rfl
  dropped := rfl
  self := if_pos rfl
  others _ ho := if_neg ho
  later := hstamp

section

variable [ZoneClocks]

private theorem invariant_enqueue (h : w.Invariant) (now : Instant) (key : PollKey) :
    Invariant { w with service.scheduler := (w.scheduler.enqueue now key).2 } := by
  refine h.quiet (h.quiet_of_tables h.coherent rfl (Scheduler.sound_enqueue h.sound now key) rfl
    (.inl rfl) rfl rfl fun k hk => hk.mono rfl (fun hq => .queued ?_) (fun hp => .kept hp)
      (fun hf ht => .inFlight hf ht) (fun _ hd => hd) fun _ hx => hx)
  exact (RefreshQueue.mem_keys_upsert h.sound).mpr (.inl hq)

private theorem invariant_unreachable (h : w.Invariant) (guild : GuildId) :
    Invariant { w with service.scheduler := w.scheduler.markUnreachable guild } :=
  h.quiet (h.quiet_of_tables h.coherent rfl h.sound rfl (.inl rfl) rfl rfl fun _ hk =>
    hk.mono rfl (fun hq => .queued hq) (fun hp => .kept hp) (fun hf ht => .inFlight hf ht)
      (fun _ hd => hd) fun _ hx => hx)

private theorem invariant_pop (h : w.Invariant) (now : Instant) (hidle : w.tick = .idle) :
    Invariant ({ w with
      service.scheduler := (w.scheduler.take now).2
      tick := .begun (w.scheduler.take now).1 }.noteDropped
      ((w.scheduler.queue.popEligible now w.scheduler.isReachable).expired.map Refresh.key)) := by
  have hsplits := RefreshQueue.splits_popEligible h.sound now w.scheduler.isReachable
  have hqueue := w.scheduler.queue_take now
  have hflight := w.scheduler.inFlight_take now
  have hnext := w.scheduler.take_fst now
  have hsound : (w.scheduler.take now).2.queue.Sound := hqueue ▸ hsplits.sound
  have htick : (TickPhase.begun (w.scheduler.take now).1).attempt? = none := by
    cases (w.scheduler.take now).1 <;> rfl
  refine h.quiet (h.quiet_of_tables h.coherent rfl hsound rfl (.inr htick) rfl rfl fun k hk =>
    hk.mono rfl (fun hq => ?_) (fun hp => .kept hp) (fun _ ht => ?_) (fun _ hd => hd)
      fun _ hx => List.mem_append_left _ hx)
  · obtain ⟨r, hr, rfl⟩ := List.mem_map.mp hq
    rcases hsplits.mem_of_mem hr with hstays | hpopped | hexpired
    · have hkeys : r.key ∈ (w.scheduler.take now).2.queue.keys :=
        hqueue ▸ List.mem_map_of_mem hstays
      exact .queued hkeys
    · rw [← hnext] at hpopped
      rw [hpopped] at hflight
      have hshow : (TickPhase.begun (w.scheduler.take now).1).WillShow r.key (w.version r.key) := by
        rw [hpopped]
        rfl
      exact .inFlight hflight hshow
    · exact .dropped (mem_dropped_noteDropped (List.mem_map_of_mem hexpired))
  · rw [hidle] at ht
    cases ht

/-- A tick that fails drops the refresh or puts it in line again. -/
theorem invariant_endTick (h : w.Invariant) {r : Refresh} {outcome : TickOutcome} {s : Service}
    (hs : Holds s w.tables) (hfails : w.scheduler.Fails r outcome s.scheduler.queue)
    (htick : ∀ key version, w.tick.WillShow key version → key = r.key) :
    (w.endTick r.key (outcome, s)).Invariant := by
  refine h.quiet (h.quiet_of_tables hs.coherent hs.tables (hfails.sound h.sound) rfl (.inr rfl) rfl
    rfl fun k hk => hk.mono rfl (fun hq => .queued (hfails.mem_keys h.sound hq)) (fun hp => ?_)
      (fun _ ht => ?_) (fun _ hd => hd) fun _ hx => List.mem_append_left _ hx)
  · have hpending : k ∈ s.tables.pending := hs.tables ▸ hp
    exact .kept hpending
  · obtain rfl := htick k _ ht
    rcases hfails.isDrop_or_mem h.sound with hdrop | hqueued
    · refine .dropped (mem_dropped_noteDropped ?_)
      rw [hdrop]
      exact List.mem_singleton_self r.key
    · exact .queued hqueued

private theorem invariant_unreadable (h : w.Invariant) (now : Instant) {r : Refresh}
    {outcome : TickOutcome} {s : Service} (hpopped : w.tick = .popped r)
    (hread : w.service.prepare now r = (.finished outcome, s)) :
    (w.endTick r.key (outcome, s)).Invariant := by
  obtain ⟨hholds, hfails⟩ := prepare_cases h.coherent now r
  rw [hread] at hholds hfails
  apply invariant_endTick h hholds hfails
  intro key version ht
  rw [hpopped] at ht
  exact ht.symm

private theorem invariant_refuse (h : w.Invariant) (now : Instant) (e : GatewayError) {a : Attempt}
    {version : Nat} (hposting : w.tick = .posting a version) :
    (w.endTick a.refresh.key (w.service.finishTick now a (.error e))).Invariant := by
  obtain ⟨hstore, hfails⟩ := finishTick_error w.service now a e
  have hholds : Holds (w.service.finishTick now a (.error e)).2 w.tables := ⟨h.coherent, rfl⟩
  apply invariant_endTick h hholds hfails
  intro key v ht
  have hattempt := h.attempt a version (by rw [hposting]; rfl)
  rw [hposting] at ht
  exact ht.1.symm.trans hattempt.1.symm

private theorem invariant_read (h : w.Invariant) (now : Instant) {r : Refresh} {a : Attempt}
    {s : Service} (hpopped : w.tick = .popped r)
    (hread : w.service.prepare now r = (.posting a, s)) :
    Invariant { w with service := s, tick := .posting a (w.version r.key) } := by
  obtain ⟨hholds, hreads⟩ := prepare_cases h.coherent now r
  rw [hread] at hholds hreads
  obtain ⟨hscheduler, hreads⟩ := hreads
  obtain ⟨row, hrow, hedit⟩ := hreads.edit
  obtain ⟨hkey, hmillis⟩ := EditStamp.mk.inj hedit
  have hhead : (w.changes r.key).head? = some a.edit.editedAt.millis :=
    (h.stamped r.key row hrow).trans (congrArg some hmillis.symm)
  have hidle : w.tick.attempt? = none := by rw [hpopped]; rfl
  have htexts : w.texts = w.delivered := by rw [texts, hidle]; exact List.append_nil _
  have hshows : w.tables.Shows a.posting := by
    obtain ⟨p, hp, htext⟩ := hreads.text
    exact ⟨p, hreads.key ▸ hp, htext⟩
  refine h.observes {
    coherent := hholds.coherent
    tables := hholds.tables
    scheduler := hscheduler
    changes := rfl
    observed := ?observed
    attempt := ?attempt
    answered := fun a' version ha => by cases ha
    texts := ?texts
    asked := fun _ _ ha => ha
    willShow := ?willShow
    delivered := fun _ hd => hd
    dropped := rfl }
  case observed =>
    intro e he
    rcases List.mem_cons.mp he with rfl | he
    · exact .inr (hkey ▸ hhead)
    · exact .inl (List.mem_append_right _ he)
  case attempt =>
    intro a' version ha
    obtain ⟨rfl, rfl⟩ := Prod.mk.inj (Option.some.inj ha)
    rw [hreads.key, hreads.refresh]
    exact .inr ⟨rfl, hkey, rfl⟩
  case texts =>
    intro d hd
    rcases List.mem_append.mp hd with hd | hd
    · exact .inl (htexts ▸ hd)
    · obtain rfl := List.mem_singleton.mp hd
      exact .inr ⟨congrArg w.version hreads.key.symm, hshows⟩
  case willShow =>
    intro key ht
    rw [hpopped] at ht
    obtain rfl : r.key = key := ht
    exact .inl ⟨hreads.key, rfl⟩

private theorem invariant_deliver (h : w.Invariant) {a : Attempt} {version : Nat}
    (hposting : w.tick = .posting a version) :
    Invariant { w with
      tick := .answered a version
      delivered := w.delivered ++ [⟨a.posting, version⟩] } := by
  have hattempt : w.tick.attempt? = some (a, version) := by rw [hposting]; rfl
  refine h.observes {
    coherent := h.coherent
    tables := rfl
    scheduler := rfl
    changes := rfl
    observed := ?observed
    attempt := fun a' v ha => .inl (hattempt.trans ha)
    answered := ?answered
    texts := ?texts
    asked := fun _ _ ha => ha
    willShow := ?willShow
    delivered := fun _ hd => List.mem_append_left _ hd
    dropped := rfl }
  case observed =>
    intro e he
    rw [observed, hattempt]
    exact .inl he
  case answered =>
    intro a' v ha
    cases ha
    exact List.mem_append_right _ (List.mem_singleton_self _)
  case texts =>
    intro d hd
    rw [texts, hattempt]
    rcases List.mem_append.mp hd with hd | hd
    · exact .inl hd
    · exact .inl (List.mem_append_right _ hd)
  case willShow =>
    intro key ht
    rw [hposting] at ht
    exact .inr ⟨_, List.mem_append_right _ (List.mem_singleton_self _), ht⟩

private theorem invariant_acknowledge (h : w.Invariant) (now : Instant) {a : Attempt} {version : Nat}
    (hanswered : w.tick = .answered a version) :
    (w.endTick a.refresh.key (w.service.finishTick now a (.ok ()))).Invariant := by
  obtain ⟨hholds, hdelivered, hqueue⟩ := finishTick_ok h.coherent now a
  have hattempt : w.tick.attempt? = some (a, version) := by rw [hanswered]; rfl
  obtain ⟨-, hkey, hcurrent⟩ := h.attempt a version hattempt
  have hobserved : ∀ e ∈ [a.edit], e ∈ w.observed := by
    intro e he
    rw [observed, hattempt]
    exact List.mem_append_left _ he
  have hcovered : ∀ e ∈ [a.edit], ∀ old, w.tables.row? e.key = some old →
      e.editedAt.millis = old.editedAt → w.Covered e.key := by
    intro e he old hold hstamp
    obtain rfl := List.mem_singleton.mp he
    have hhead := h.stamped a.edit.key old hold
    rw [hkey, ← hstamp] at hhead
    exact .delivered _ (h.answered a version hanswered) hkey.symm (hkey ▸ hcurrent hhead)
  have htables : (w.endTick a.refresh.key (w.service.finishTick now a (.ok ()))).tables =
      (w.tables.markSeen ([a.edit].map (·.toStamp))).2 := hholds.tables
  refine h.quiet {
    coherent := hholds.coherent
    distinct := ?distinct
    sound := hqueue ▸ h.sound
    changes := rfl
    row := ?row
    tick := .inr rfl
    sweeps := fun p hp => ⟨p, hp, fun _ he => he, fun _ he => .inl he⟩
    delivered := rfl
    covered := ?covered }
  case distinct =>
    rw [htables, (w.tables.sameContent_markSeen _).keys]
    exact h.distinct
  case row =>
    rw [htables]
    exact fun k r hr => sameVersion_markSeen hobserved hcovered hr
  case covered =>
    intro k r _ hk
    refine hk.mono rfl (fun hq => ?_) (fun hp => ?_) (fun _ ht => ?_) (fun _ hd => hd)
      fun _ hx => List.mem_append_left _ hx
    · exact .queued (hqueue ▸ hq)
    · refine .kept ?_
      rw [htables, Tables.pending_markSeen]
      exact hp
    · rw [hanswered] at ht
      cases ht

private theorem invariant_sweep (h : w.Invariant) (now : Instant) :
    Invariant { w with
      service := (SweepPhase.start w.service now).2
      sweeps := w.sweeps ++ (SweepPhase.start w.service now).1.toList } := by
  obtain ⟨hholds, hscheduler, hphase⟩ := SweepPhase.start_cases h.coherent now
  have hsweeps : ∀ p ∈ w.sweeps ++ (SweepPhase.start w.service now).1.toList,
      p ∈ w.sweeps ∨ (SweepPhase.start w.service now).1 = some p :=
    fun p hp => (List.mem_append.mp hp).imp_right Option.mem_toList.mp
  refine h.observes {
    coherent := hholds.coherent
    tables := hholds.tables
    scheduler := hscheduler
    changes := rfl
    observed := ?observed
    attempt := fun _ _ ha => .inl ha
    answered := h.answered
    texts := fun _ hd => .inl hd
    asked := ?asked
    willShow := fun _ ht => .inl ht
    delivered := fun _ hd => hd
    dropped := rfl }
  case observed =>
    intro e he
    rcases List.mem_append.mp he with he | he
    · exact .inl (List.mem_append_left _ he)
    · obtain ⟨p, hp, he⟩ := List.mem_flatMap.mp he
      rcases hsweeps p hp with hp | hp
      · exact .inl (List.mem_append_right _ (List.mem_flatMap.mpr ⟨p, hp, he⟩))
      · obtain ⟨edits, rfl, hedits⟩ := hphase p hp
        have hstamp : e.toStamp ∈ w.tables.unseenSince w.scheduler.editCutoff.millis :=
          hedits ▸ List.mem_map_of_mem he
        obtain ⟨r, hr, -, hre⟩ := Tables.mem_unseenSince.mp hstamp
        obtain ⟨hkey, hedited⟩ := EditStamp.mk.inj hre
        have hhead := h.stamped r.key r (Tables.row?_of_mem h.distinct hr)
        rw [hkey, hedited] at hhead
        exact .inr hhead
  case asked =>
    rintro key stamp ⟨p, hp, e, he, hkey, hstamp⟩
    rcases hsweeps p hp with hp | hp
    · exact ⟨p, hp, e, he, hkey, hstamp⟩
    · obtain ⟨edits, rfl, -⟩ := hphase p hp
      cases he

private theorem invariant_abandon (h : w.Invariant) {before after : List SweepPhase} {p : SweepPhase}
    (hsweep : w.sweeps = before ++ p :: after) :
    Invariant { w with sweeps := before ++ after } := by
  have hsub : ∀ p' ∈ before ++ after, p' ∈ w.sweeps := by
    intro p' hp'
    rw [hsweep]
    rcases List.mem_append.mp hp' with hp' | hp'
    · exact List.mem_append_left _ hp'
    · exact List.mem_append_right _ (List.mem_cons_of_mem _ hp')
  exact h.quiet ⟨h.coherent, h.distinct, h.sound, rfl, fun _ _ hr => sameVersion_of_row rfl rfl hr,
    .inl rfl, fun p' hp' => ⟨p', hsub p' hp', fun _ he => he, fun _ he => .inl he⟩, rfl,
    fun _ _ _ hk => hk.mono rfl (fun hq => .queued hq) (fun hp => .kept hp)
      (fun hf ht => .inFlight hf ht) (fun _ hd => hd) fun _ hx => hx⟩

/-- What a phase of a sweep leaves of the service, and what the sweep knows afterwards. -/
structure Advances (w : World) (p : SweepPhase) (next : Option SweepPhase) (s : Service) :
    Prop where
  coherent : s.store.Coherent
  distinct : (s.tables.polls.map (·.key)).Nodup
  row : ∀ key r, s.tables.row? key = some r → w.SameVersion s.tables key r
  pending : s.tables.pending = w.tables.pending
  sound : s.scheduler.queue.Sound
  keys : ∀ k ∈ w.scheduler.queue.keys, k ∈ s.scheduler.queue.keys
  inFlight : s.scheduler.inFlight = w.scheduler.inFlight
  found : ∀ p', next = some p' → ∀ e ∈ p'.found, e ∈ p.found
  asked : ∀ p', next = some p' → ∀ e ∈ p'.asked, e.key ∈ s.scheduler.queue.keys

theorem Invariant.advances_enqueueAll (h : w.Invariant) (now : Instant) {keys : List PollKey}
    {p next : SweepPhase} (hfound : ∀ e ∈ next.found, e ∈ p.found)
    (hasked : ∀ e ∈ next.asked, e.key ∈ keys) :
    w.Advances p (some next) (outcome (enqueueAll now keys) w.service).2 := by
  obtain ⟨queue, hqueue, hsound, hmem⟩ := Scheduler.enqueueAll_eq h.sound now keys
  have houtcome : (outcome (enqueueAll now keys) w.service).2.scheduler =
      { w.scheduler with queue } := hqueue
  refine ⟨h.coherent, h.distinct, fun _ _ hr => sameVersion_of_row rfl rfl hr, rfl, ?_, ?_, ?_, ?_,
    ?_⟩
  · rw [houtcome]
    exact hsound
  · rw [houtcome]
    exact fun k hk => (hmem k).mpr (.inl hk)
  · rw [houtcome]
  · rintro p' hp' e he
    obtain rfl := Option.some.inj hp'
    exact hfound e he
  · rintro p' hp' e he
    obtain rfl := Option.some.inj hp'
    rw [houtcome]
    exact (hmem e.key).mpr (.inr (hasked e he))

/-- A phase that leaves the queue alone and knows of no edits afterwards. -/
theorem Invariant.advances_of_holds (h : w.Invariant) {p : SweepPhase} {next : Option SweepPhase}
    {s : Service} {t : Tables} (hholds : Holds s t)
    (hkeys : t.polls.map (·.key) = w.tables.polls.map (·.key))
    (hrow : ∀ key r, t.row? key = some r → w.SameVersion t key r)
    (hpending : t.pending = w.tables.pending) (hqueue : s.scheduler.queue = w.scheduler.queue)
    (hflight : s.scheduler.inFlight = w.scheduler.inFlight)
    (hnext : ∀ p', next = some p' → p'.found = [] ∧ p'.asked = []) : w.Advances p next s := by
  obtain ⟨hcoherent, rfl⟩ := hholds
  refine ⟨hcoherent, hkeys ▸ h.distinct, hrow, hpending, hqueue ▸ h.sound, fun k hk => hqueue ▸ hk,
    hflight, fun p' hp' e he => ?_, fun p' hp' e he => ?_⟩
  · rw [(hnext p' hp').1] at he
    cases he
  · rw [(hnext p' hp').2] at he
    cases he

private theorem Invariant.advances (h : w.Invariant) (now : Instant) {p : SweepPhase}
    (hp : p ∈ w.sweeps) :
    w.Advances p (p.advance w.service now).1 (p.advance w.service now).2 := by
  cases p with
  | edited started found =>
    exact h.advances_enqueueAll now (fun e he => he) fun e he => List.mem_map_of_mem he
  | askedEdited started found =>
    obtain ⟨hresult, hholds, hqueue, hflight⟩ := finishUnseen_eq h.coherent started found
    have hadvance : SweepPhase.advance w.service now (.askedEdited started found) =
        (some (.acknowledged started), (outcome (finishUnseen started found) w.service).2) := by
      simp only [SweepPhase.advance]
      split
      · next heq => rw [heq]
      · next heq => rw [heq] at hresult; cases hresult
    have hobserved : ∀ e ∈ found, e ∈ w.observed := fun e he =>
      List.mem_append_right _ (List.mem_flatMap.mpr ⟨_, hp, he⟩)
    have hcovered : ∀ e ∈ found, ∀ old, w.tables.row? e.key = some old →
        e.editedAt.millis = old.editedAt → w.Covered e.key :=
      fun e he old hold hstamp => h.covered e.key old hold (.inr ⟨_, hp, e, he, rfl, hstamp⟩)
    rw [hadvance]
    refine h.advances_of_holds hholds (Tables.sameContent_markSeen _ _).keys
      (fun k r hr => sameVersion_markSeen hobserved hcovered hr) (Tables.pending_markSeen _ _)
      hqueue hflight fun p' hp' => ?_
    cases hp'
    exact ⟨rfl, rfl⟩
  | acknowledged started =>
    obtain ⟨keys, hnext, hholds, hscheduler⟩ :=
      SweepPhase.advance_acknowledged h.coherent now started
    refine h.advances_of_holds hholds rfl (fun k r hr => sameVersion_of_row rfl rfl hr) rfl
      (hscheduler ▸ rfl) (hscheduler ▸ rfl) fun p' hp' => ?_
    rw [hnext] at hp'
    cases hp'
    exact ⟨rfl, rfl⟩
  | ended found =>
    exact h.advances_enqueueAll now (fun e he => he) fun e he => by cases he
  | askedEnded found =>
    obtain ⟨hholds, hqueue, hflight⟩ := finishEnded_eq h.coherent found
    refine h.advances_of_holds hholds (Tables.sameContent_markFinal _ _).keys
      (fun k r hr => sameVersion_markFinal hr) (Tables.pending_markFinal _ _) hqueue hflight
      fun p' hp' => ?_
    cases hp'

private theorem invariant_advance (h : w.Invariant) (now : Instant) {before after : List SweepPhase}
    {p : SweepPhase} (hsweep : w.sweeps = before ++ p :: after) :
    Invariant { w with
      service := (p.advance w.service now).2
      sweeps := before ++ (p.advance w.service now).1.toList ++ after } := by
  have hp : p ∈ w.sweeps := hsweep ▸ List.mem_append_right _ List.mem_cons_self
  have hadvances := h.advances now hp
  refine h.quiet {
    coherent := hadvances.coherent
    distinct := hadvances.distinct
    sound := hadvances.sound
    changes := rfl
    row := hadvances.row
    tick := .inl rfl
    sweeps := ?sweeps
    delivered := rfl
    covered := ?covered }
  case sweeps =>
    intro p' hp'
    have hcases : p' ∈ w.sweeps ∨ (p.advance w.service now).1 = some p' := by
      rw [hsweep]
      rcases List.mem_append.mp hp' with hp' | hp'
      · rcases List.mem_append.mp hp' with hp' | hp'
        · exact .inl (List.mem_append_left _ hp')
        · exact .inr (Option.mem_toList.mp hp')
      · exact .inl (List.mem_append_right _ (List.mem_cons_of_mem _ hp'))
    rcases hcases with hold | hnext
    · exact ⟨p', hold, fun _ he => he, fun _ he => .inl he⟩
    · exact ⟨p, hp, hadvances.found p' hnext,
        fun e he => .inr (.queued (hadvances.asked p' hnext e he))⟩
  case covered =>
    intro k r _ hk
    refine hk.mono rfl (fun hq => ?_) (fun hp => ?_) (fun hf ht => ?_) (fun _ hd => hd)
      fun _ hx => hx
    · exact .queued (hadvances.keys k hq)
    · exact .kept (hadvances.pending ▸ hp)
    · exact .inFlight (hadvances.inFlight.trans hf) ht

/-- A step that changes the service as a whole. What was queued or kept is queued or kept afterwards,
and what was in flight still is, or is kept. -/
theorem Invariant.of_service (h : w.Invariant) {s : Service} {t : Tables} {tick : TickPhase}
    (hholds : Holds s t) (hdistinct : (t.polls.map (·.key)).Nodup)
    (hrow : ∀ key r, t.row? key = some r → w.SameVersion t key r)
    (hsound : s.scheduler.queue.Sound) (htick : tick = w.tick ∨ tick = .idle)
    (hqueue : ∀ k ∈ w.scheduler.queue.keys, k ∈ s.scheduler.queue.keys ∨ k ∈ t.pending)
    (hpending : ∀ k r, t.row? k = some r → k ∈ w.tables.pending →
      k ∈ s.scheduler.queue.keys ∨ k ∈ t.pending)
    (hflight : ∀ k, w.scheduler.inFlight = some k →
      s.scheduler.inFlight = some k ∧ tick = w.tick ∨ k ∈ t.pending) :
    Invariant { w with service := s, tick } := by
  obtain ⟨hcoherent, rfl⟩ := hholds
  have hcases : ∀ k, k ∈ s.scheduler.queue.keys ∨ k ∈ s.tables.pending →
      Covered { w with service := s, tick } k :=
    fun k hk => hk.elim (fun hq => .queued hq) fun hp => .kept hp
  refine h.quiet ⟨hcoherent, hdistinct, hsound, rfl, hrow, ?_,
    fun p hp => ⟨p, hp, fun _ he => he, fun _ he => .inl he⟩, rfl,
    fun k r hr hk => hk.mono rfl (fun hq => hcases k (hqueue k hq))
      (fun hp => hcases k (hpending k r hr hp)) (fun hf ht => ?_) (fun _ hd => hd) fun _ hx => hx⟩
  · refine htick.imp_right fun ht => ?_
    rw [ht]
    rfl
  · rcases hflight k hf with ⟨hf', rfl⟩ | hkept
    · exact .inFlight hf' ht
    · exact .kept hkept

private theorem invariant_expire (h : w.Invariant) (now : Instant) :
    Invariant { w with service := (outcome (sweepExpired now) w.service).2 } := by
  obtain ⟨t, hholds, hthins, hqueue, hflight⟩ := sweepExpired_eq h.coherent now
  exact h.of_service hholds (hthins.distinct h.distinct)
    (fun _ _ hr => sameVersion_of_thins hthins hr) (hqueue ▸ h.sound) (.inl rfl)
    (fun _ hk => .inl (hqueue ▸ hk)) (fun _ _ hr hk => .inr (mem_pending_of_thins hthins hr hk))
    fun _ hf => .inl ⟨hflight.trans hf, rfl⟩

/-- What was queued or in flight is kept. -/
theorem invariant_shutdown (h : w.Invariant) {tick : TickPhase}
    (htick : tick = w.tick ∨ tick = .idle) :
    Invariant { w with service := (outcome Service.shutdown w.service).2, tick } := by
  obtain ⟨hholds, hqueue, -⟩ := shutdown_eq h.coherent
  obtain ⟨added, hsaved, hmem⟩ := w.tables.savePending_eq w.scheduler.takeAll.1
  rw [show w.service.tables = w.tables from rfl, show w.service.scheduler = w.scheduler from rfl,
    hsaved] at hholds
  refine h.of_service hholds h.distinct (fun _ _ hr => sameVersion_of_row rfl rfl hr)
    (hqueue ▸ RefreshQueue.sound_empty) htick (fun k hk => .inr ((hmem k).mpr (.inr ?_)))
    (fun k _ _ hk => .inr ((hmem k).mpr (.inl hk))) fun k hf => .inr ((hmem k).mpr (.inr ?_))
  · exact Scheduler.mem_takeAll.mpr (.inr hk)
  · exact Scheduler.mem_takeAll.mpr (.inl hf)

/-- What was kept for the guild is asked for again. -/
theorem invariant_reachable (h : w.Invariant) (now : Instant) (guild : GuildId) :
    Invariant { w with service := (outcome (markReachable now guild) w.service).2 } := by
  obtain ⟨hholds, hscheduler⟩ := markReachable_eq h.coherent now guild
  have hsound : (w.scheduler.markReachable guild).queue.Sound := h.sound
  obtain ⟨queue, hqueue, hsound, hmem⟩ :=
    Scheduler.enqueueAll_eq hsound now (w.tables.pendingOf guild)
  have hscheduler' := hscheduler.trans hqueue
  refine h.of_service hholds h.distinct (fun _ _ hr => sameVersion_of_row rfl rfl hr) ?_ (.inl rfl)
    ?_ ?_ ?_
  · rw [hscheduler']
    exact hsound
  · rw [hscheduler']
    exact fun k hk => .inl ((hmem k).mpr (.inl hk))
  · rw [hscheduler']
    intro k r _ hk
    by_cases hguild : k.guild = guild
    · exact .inl ((hmem k).mpr (.inr (Tables.mem_pendingOf.mpr ⟨hk, hguild⟩)))
    · exact .inr (List.mem_filter.mpr ⟨hk, by simpa using hguild⟩)
  · rw [hscheduler']
    exact fun k hf => .inl ⟨hf, rfl⟩

private theorem invariant_restart (h : w.Invariant) (hidle : w.tick = .idle)
    (hqueue : w.scheduler.queue.toList = []) :
    Invariant { w with service := w.service.restart, sweeps := [] } := by
  refine h.quiet ⟨h.coherent, h.distinct, RefreshQueue.sound_empty, rfl,
    fun _ _ hr => sameVersion_of_row rfl rfl hr, .inl rfl, fun p hp => (List.not_mem_nil hp).elim, rfl,
    fun k r _ hk => hk.mono rfl (fun hq => ?_) (fun hp => .kept hp) (fun _ ht => ?_)
      (fun _ hd => hd) fun _ hx => hx⟩
  · rw [RefreshQueue.keys, hqueue] at hq
    cases hq
  · rw [hidle] at ht
    cases ht

private theorem invariant_client (h : w.Invariant) {e : StoreEvent} (he : e.isClients)
    (hstamp : w.Increasing e) : (w.reacted e).Invariant := by
  obtain ⟨hcoherent, hreply, htables⟩ := Store.leaves_react h.coherent e
  have hchanges := DirectStore.changes_react w.service.store.direct he
  rw [← hreply, ← htables] at hchanges
  have hreacted : w.reacted e =
      { w with service := { w.service with store := (w.service.store.react e).2 } }.noteChange
        (e.change? (w.service.store.react e).1) := rfl
  rw [hreacted]
  cases hchange : e.change? (w.service.store.react e).1 with
  | none =>
    rw [hchange] at hchanges
    exact h.of_service (s := ⟨(w.service.store.react e).2, w.scheduler⟩) ⟨hcoherent, rfl⟩
      (hchanges.distinct h.distinct) (fun _ _ hr => sameVersion_of_thins hchanges hr) h.sound
      (.inl rfl) (fun _ hk => .inl hk) (fun _ _ hr hk => .inr (mem_pending_of_thins hchanges hr hk))
      fun _ hf => .inl ⟨hf, rfl⟩
  | some change =>
    obtain ⟨key, stamp⟩ := change
    rw [hchange] at hchanges
    exact h.changed (changed_noteChange hcoherent hchanges (hstamp key stamp hchange))

private theorem invariant_step (h : w.Invariant) (hstep : Step w w') : w'.Invariant := by
  cases hstep with
  | client e he hstamp => exact invariant_client h he hstamp
  | enqueue now key => exact invariant_enqueue h now key
  | pop now hidle => exact invariant_pop h now hidle
  | read now hpopped hread => exact invariant_read h now hpopped hread
  | unreadable now hpopped hread => exact invariant_unreadable h now hpopped hread
  | deliver hposting => exact invariant_deliver h hposting
  | refuse now e hposting => exact invariant_refuse h now e hposting
  | acknowledge now hanswered => exact invariant_acknowledge h now hanswered
  | sweep now => exact invariant_sweep h now
  | advance now hsweep => exact invariant_advance h now hsweep
  | abandon hsweep => exact invariant_abandon h hsweep
  | expire now => exact invariant_expire h now
  | shutdown tick htick => exact invariant_shutdown h htick
  | reachable now guild => exact invariant_reachable h now guild
  | unreachable guild => exact invariant_unreachable h guild
  | restart hidle hqueue hflight => exact invariant_restart h hidle hqueue

private theorem invariant_reachable_world {config : SchedulerConfig} (h : Reachable config w) :
    w.Invariant := by
  induction h with
  | fresh => exact invariant_fresh config
  | step _ hstep ih => exact invariant_step ih hstep

/-- The latest change of each stored poll is still unseen, or the poll is queued, in flight or kept, or
the chat platform has taken the text of just the poll that is stored, or a refresh of the poll was
dropped since that change. -/
theorem update_not_lost {config : SchedulerConfig} (h : Reachable config w) :
    ∀ r ∈ w.tables.polls,
      r.hasUnseenEdit = true ∨
      (r.key ∈ w.scheduler.queue.keys ∨ w.scheduler.inFlight = some r.key ∨
        r.key ∈ w.tables.pending) ∨
      (∃ d ∈ w.delivered, d.posting.key = r.key ∧ d.version = w.version r.key ∧
        w.tables.Shows d.posting) ∨
      (r.key, w.version r.key) ∈ w.dropped := by
  intro r hr
  have hinvariant := invariant_reachable_world h
  have hrow := Tables.row?_of_mem hinvariant.distinct hr
  cases hseen : r.hasUnseenEdit with
  | true => exact .inl rfl
  | false =>
    refine .inr ?_
    cases hinvariant.covered r.key r hrow (.inl hseen) with
    | queued hq => exact .inl (.inl hq)
    | kept hp => exact .inl (.inr (.inr hp))
    | inFlight hf _ => exact .inl (.inr (.inl hf))
    | delivered d hd hkey hversion =>
      have hshown : d ∈ w.texts := List.mem_append_left _ hd
      have hshows := hinvariant.shows d hshown (hkey ▸ hversion) r (hkey ▸ hrow)
      exact .inr (.inl ⟨d, hd, hkey, hversion, hshows⟩)
    | dropped hd => exact .inr (.inr hd)

end

open ZoneHistories

/-- A sweep finds a new poll, asks for its refresh and acknowledges it. -/
theorem update_not_lost_of_sweep :
    ∃ w, Reachable .everySecond w ∧ w.tables.polls.map (·.hasUnseenEdit) = [false] ∧
      ∀ r ∈ w.tables.polls,
        r.hasUnseenEdit = true ∨
        (r.key ∈ w.scheduler.queue.keys ∨ w.scheduler.inFlight = some r.key ∨
          r.key ∈ w.tables.pending) ∨
        (∃ d ∈ w.delivered, d.posting.key = r.key ∧ d.version = w.version r.key ∧
          w.tables.Shows d.posting) ∨
        (r.key, w.version r.key) ∈ w.dropped := by
  have hlocked : Reachable .everySecond ((fresh .everySecond).reacted (.acquire 1)) :=
    .step .fresh (.client _ rfl fun key stamp h => by cases h)
  have hinserted := Reachable.step hlocked (.client (.request .earliest
    (.ofGuild ⟨1, 0⟩ (.insert 7 .lunch))) rfl fun key stamp _ last hlast => by cases hlast)
  have hfound := Reachable.step hinserted (.sweep .earliest)
  have hasked := Reachable.step hfound (.advance .earliest
    (show World.sweeps _ = [] ++ .edited .earliest [⟨⟨1, 7⟩, .earliest⟩] :: [] by decide +kernel))
  have hseen := Reachable.step hasked (.advance .earliest
    (show World.sweeps _ = [] ++ .askedEdited .earliest [⟨⟨1, 7⟩, .earliest⟩] :: [] from rfl))
  exact ⟨_, hseen, by decide +kernel, update_not_lost hseen⟩

end World
end PollKeeper
