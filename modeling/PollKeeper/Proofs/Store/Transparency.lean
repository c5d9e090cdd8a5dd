import PollKeeper.Proofs.Store.Coherence

/-!
# Caches are transparent

A store with caches answers every run of events like one that reads its tables every time; caches may
be cleared or lose entries anywhere in between.
-/

namespace PollKeeper

open Time StoreAction

variable {α β : Type}

/-- The same answer as that of a store without caches, and the same store but for coherent caches. -/
def Mirrors (r : α × Store) (d : α × DirectStore) : Prop :=
  ∃ c : Caches, c.Coherent d.2.tables ∧ r = (d.1, d.2.withCaches c)

private theorem serves_infallible_bind {a : StoreAction α} {f : Tables → α × Tables}
    {b : α → StoreAction β} {g : α → Tables → β × Tables} (ha : Serves a fun t => .ok (f t))
    (hb : ∀ x, Serves (b x) fun t => .ok (g x t)) :
    Serves (a >>= b) fun t => .ok (g (f t).1 (f t).2) := by
  rintro s hs r rfl
  obtain ⟨c, hc, ho⟩ := ha s hs _ rfl
  obtain ⟨c', hc', ho'⟩ := hb (f s.database.tables).1
    ⟨⟨(f s.database.tables).2, false⟩, c, s.locks⟩ ⟨rfl, hc⟩ _ rfl
  exact ⟨c', hc', (outcome_bind_of_ok ho).trans ho'⟩

namespace Store

theorem serves_deleteEnded (cutoff : Int) (key : PollKey) :
    Serves (deleteEnded cutoff key) (fun t => .ok (t.removeEnded key cutoff)) := by
  rintro ⟨⟨t, _⟩, caches, locks⟩ ⟨rfl, hcaches⟩ r rfl
  have hcount : (StoreAction.count (·.removeEnded key cutoff)).outcome
      ⟨⟨t, false⟩, caches, locks⟩ = (.ok (t.removeEnded key cutoff).1,
        ⟨⟨(t.removeEnded key cutoff).2, false⟩, caches, locks⟩) := by
    rw [StoreAction.count, outcome_change]
    rfl
  simp only [deleteEnded]
  rw [outcome_bind_of_ok hcount]
  rw [Tables.removeEnded_eq]
  split
  · refine ⟨caches.forgetListed key, hcaches.forgetListed rfl ?_ fun other ho => ?_, rfl⟩
    · exact fun guild hg => Tables.pollIds_removePoll t key hg
    · exact (Tables.slice_removePoll t key other).trans (if_neg ho)
  · exact ⟨caches, hcaches, rfl⟩

private theorem serves_deleteAllEnded (cutoff : Int) (keys : List PollKey) :
    Serves (do
        let deleted ← keys.mapM (deleteEnded cutoff)
        pure (deleted.count true))
      (fun t => .ok (Tables.removeAllEnded cutoff keys t)) := by
  induction keys with
  | nil => exact .of_reading (f := fun _ => .ok 0) fun s hs => ⟨s.caches, hs.caches, rfl⟩
  | cons key rest ih =>
    have hcons : (do
        let deleted ← (key :: rest).mapM (deleteEnded cutoff)
        pure (deleted.count true)) = (do
          let removed ← deleteEnded cutoff key
          let n ← (do
            let deleted ← rest.mapM (deleteEnded cutoff)
            pure (deleted.count true))
          pure (n + if removed then 1 else 0)) := by
      simp only [List.mapM_cons, bind_assoc, pure_bind]
      congr
      funext removed
      congr
      funext deleted
      simp [List.count_cons]
    rw [hcons]
    refine serves_infallible_bind (g := fun removed t =>
      ((Tables.removeAllEnded cutoff rest t).1 + (if removed then 1 else 0),
        (Tables.removeAllEnded cutoff rest t).2)) (serves_deleteEnded cutoff key) fun removed => ?_
    rw [← map_eq_pure_bind]
    exact ih.map _

private theorem mirrors_deleteEndedOf (cutoff : Int) (guild : GuildId) (keys : List PollKey)
    {c : Caches} {s : DirectStore} (hc : c.Coherent s.tables) :
    Mirrors ((deleteEndedOf cutoff guild keys).outcome (s.withCaches c))
      (.ok (s.deleteEndedOf cutoff guild keys).1, (s.deleteEndedOf cutoff guild keys).2) := by
  have hlocks : (s.withCaches c).locks = s.locks := rfl
  simp only [deleteEndedOf, outcome_bind, outcome_get, outcome_modify, hlocks,
    DirectStore.deleteEndedOf]
  obtain ⟨result, locks⟩ := s.locks.acquire guild
  cases result with
  | error e => exact ⟨c, hc, rfl⟩
  | ok h =>
    obtain ⟨c', hc', ho⟩ := serves_deleteAllEnded cutoff keys ⟨⟨s.tables, false⟩, c, locks⟩
      ⟨rfl, hc⟩ _ rfl
    refine ⟨c', hc', ?_⟩
    simp only [outcome_thenRelease]
    exact congrArg (fun r : Except StoreError Nat × Store =>
      (r.1, { r.2 with locks := r.2.locks.release h })) ho

private theorem mirrors_deleteGuilds (cutoff : Int) (groups : List (GuildId × List PollKey)) (n : Nat)
    {c : Caches} {s : DirectStore} (hc : c.Coherent s.tables) :
    Mirrors
      ((groups.foldlM (fun n (guild, keys) => do
        pure (n + (← deleteEndedOf cutoff guild keys))) n : StoreAction Nat).outcome
          (s.withCaches c))
      (let r := groups.foldl (fun (n, s) (guild, keys) =>
        let (m, s) := s.deleteEndedOf cutoff guild keys
        (n + m, s)) (n, s)
      (.ok r.1, r.2)) := by
  induction groups generalizing n c s with
  | nil => exact ⟨c, hc, rfl⟩
  | cons group rest ih =>
    obtain ⟨guild, keys⟩ := group
    obtain ⟨c', hc', ho⟩ := mirrors_deleteEndedOf cutoff guild keys hc
    simp only [List.foldlM_cons, List.foldl_cons, bind_assoc, pure_bind]
    rw [outcome_bind_of_ok ho]
    exact ih _ hc'

theorem mirrors_deleteExpired (before : Instant) {c : Caches} {s : DirectStore}
    (hc : c.Coherent s.tables) :
    Mirrors ((deleteExpired before).outcome (s.withCaches c))
      (.ok (s.deleteExpired before).1, (s.deleteExpired before).2) := by
  have hlook : (look fun t => .ok (t.endedBefore before.ceilSeconds)).outcome (s.withCaches c) =
      (.ok (s.tables.endedBefore before.ceilSeconds), s.withCaches c) := by
    rw [outcome_look]
    rfl
  obtain ⟨c', hc', ho⟩ := mirrors_deleteGuilds before.ceilSeconds
    (byGuild (s.tables.endedBefore before.ceilSeconds)) 0 hc
  simp only [deleteExpired]
  rw [outcome_bind_of_ok hlook, outcome_bind_of_ok ho]
  exact ⟨c', hc', rfl⟩

private theorem mirrors_of_serves {a : StoreAction α} {f : Tables → Except StoreError (α × Tables)}
    (ha : Serves a f) {c : Caches} {s : DirectStore} (hc : c.Coherent s.tables) :
    Mirrors (a.outcome (s.withCaches c)) (s.served (f s.tables)) := by
  obtain ⟨c', hc', ho⟩ := ha (s.withCaches c) ⟨rfl, hc⟩ _ rfl
  have htables : (s.withCaches c).database.tables = s.tables := rfl
  rw [htables] at hc' ho
  cases hf : f s.tables with
  | ok y =>
    rw [hf] at hc' ho
    exact ⟨c', hc', ho⟩
  | error e =>
    rw [hf] at hc' ho
    exact ⟨c', hc', ho⟩

theorem serves_markFinal (keys : List PollKey) :
    Serves (markFinal keys) (fun t => .ok (t.markFinal keys)) := by
  cases keys with
  | nil => exact .of_reading (f := fun _ => .ok 0) fun s hs => ⟨s.caches, hs.caches, rfl⟩
  | cons key rest => exact .count fun t => t.sameContent_markFinal (key :: rest)

theorem serves_markSeen (edits : List PollEdit) :
    Serves (markSeen edits) (fun t => .ok (t.markSeen (edits.map (·.toStamp)))) := by
  cases edits with
  | nil => exact .of_reading (f := fun _ => .ok 0) fun s hs => ⟨s.caches, hs.caches, rfl⟩
  | cons edit rest => exact .count fun t => t.sameContent_markSeen _

theorem serves_persist (keys : List PollKey) :
    Serves (persist keys) (fun t => .ok (t.savePending keys)) := by
  cases keys with
  | nil => exact .of_reading (f := fun _ => .ok 0) fun s hs => ⟨s.caches, hs.caches, rfl⟩
  | cons key rest => exact .count fun t => t.sameContent_savePending (key :: rest)

theorem serves_takePersisted (guild : GuildId) :
    Serves (takePersisted guild) (fun t => .ok (t.takePending guild)) :=
  .count fun t => t.sameContent_pending _

theorem serves_editedSince (cutoff : Instant) :
    Serves (editedSince cutoff)
      (reading fun t => (t.unseenSince cutoff.millis).mapM PollEdit.ofStamp) := by
  refine ((Serves.look _).bind fun (stamps : List EditStamp) =>
    .of_except (stamps.mapM PollEdit.ofStamp)).congr fun t => ?_
  rfl

private theorem mirrors_answer (now : Instant) (r : Request) {c : Caches} {s : DirectStore}
    (hc : c.Coherent s.tables) :
    Mirrors ((answer now r).outcome (s.withCaches c)) (s.answer now r) := by
  cases r with
  | ofGuild h r =>
    have hguild := outcome_guildOf h (s.withCaches c)
    have hlocks : (s.withCaches c).locks = s.locks := rfl
    simp only [answer, DirectStore.answer]
    rw [hlocks] at hguild
    split
    · next hheld =>
      rw [if_pos hheld] at hguild
      rw [outcome_bind_of_ok hguild]
      exact mirrors_of_serves (serves_answerIn h.guild now r) hc
    · next hheld =>
      rw [if_neg hheld] at hguild
      rw [outcome_bind_of_error hguild]
      exact ⟨c, hc, rfl⟩
  | deleteExpired before =>
    obtain ⟨c', hc', ho⟩ := mirrors_deleteExpired before hc
    refine ⟨c', hc', ?_⟩
    simp only [answer, outcome_map, ho]
    rfl
  | endedUnrefreshed t => exact mirrors_of_serves ((Serves.look _).map Answer.keys) hc
  | markFinal keys => exact mirrors_of_serves ((serves_markFinal keys).map Answer.count) hc
  | editedSince cutoff =>
    have hserves : Serves (Answer.edits <$> editedSince cutoff)
        (fun t => ((t.unseenSince cutoff.millis).mapM PollEdit.ofStamp).map (.edits ·, t)) := by
      refine ((serves_editedSince cutoff).map Answer.edits).congr fun t => ?_
      simp only [reading]
      cases (t.unseenSince cutoff.millis).mapM PollEdit.ofStamp <;> rfl
    exact mirrors_of_serves hserves hc
  | markSeen edits => exact mirrors_of_serves ((serves_markSeen edits).map Answer.count) hc
  | persist keys => exact mirrors_of_serves ((serves_persist keys).map Answer.count) hc
  | takePersisted guild =>
    exact mirrors_of_serves ((serves_takePersisted guild).map Answer.keys) hc
  | clearCaches => exact ⟨.empty, .empty _, rfl⟩

private theorem coherent_without {c : Caches} {t : Tables} (h : c.Coherent t) (settings : List GuildId)
    (polls : List PollKey) (pollIds : List GuildId) :
    (c.without settings polls pollIds).Coherent t := by
  refine ⟨fun g s hg => h.settings g s ?_, fun k p hk => h.polls k p ?_,
    fun g ids hg => h.pollIds g ids ?_⟩
  · exact Keyed.get?_of_filter_key (p := fun g => g ∉ settings) hg
  · exact Keyed.get?_of_filter_key (p := fun k => k ∉ polls) hk
  · exact Keyed.get?_of_filter_key (p := fun g => g ∉ pollIds) hg

/-- Whatever happens to a store with coherent caches also happens to one without caches. -/
theorem mirrors_react (e : StoreEvent) {c : Caches} {s : DirectStore} (hc : c.Coherent s.tables) :
    Mirrors ((s.withCaches c).react e) (s.react e) := by
  cases e with
  | acquire guild =>
    refine ⟨c, hc, ?_⟩
    simp only [react, acquire, outcome_obtain]
    rfl
  | acquireUnless cancelled guild =>
    refine ⟨c, hc, ?_⟩
    simp only [react, acquireUnless, outcome_obtain]
    rfl
  | wait guild => exact ⟨c, hc, rfl⟩
  | giveUp h => exact ⟨c, hc, rfl⟩
  | release h => exact ⟨c, hc, rfl⟩
  | request now r =>
    obtain ⟨c', hc', ho⟩ := mirrors_answer now r hc
    refine ⟨c', hc', ?_⟩
    simp only [react, ho]
    rfl
  | evict settings polls pollIds => exact ⟨_, coherent_without hc settings polls pollIds, rfl⟩

theorem replies_eq_direct (events : List StoreEvent) {c : Caches} {s : DirectStore}
    (hc : c.Coherent s.tables) : (s.withCaches c).replies events = s.replies events := by
  induction events generalizing c s with
  | nil => rfl
  | cons e rest ih =>
    obtain ⟨c', hc', ho⟩ := mirrors_react e hc
    simp only [replies, DirectStore.replies, ho]
    rw [ih hc']

end Store

/-- The replies to the events that are not meant for the caches alone. -/
def StoreEvent.observed (events : List StoreEvent) (replies : List StoreReply) : List StoreReply :=
  ((events.zip replies).filter (!·.1.isCacheOnly)).map (·.2)

namespace DirectStore

private theorem react_of_isCacheOnly {e : StoreEvent} (he : e.isCacheOnly) (s : DirectStore) :
    (s.react e).2 = s := by
  unfold StoreEvent.isCacheOnly at he
  split at he
  · rfl
  · rfl
  · cases he

private theorem observed_replies (events : List StoreEvent) (s : DirectStore) :
    StoreEvent.observed events (s.replies events) =
      s.replies (events.filter (!·.isCacheOnly)) := by
  induction events generalizing s with
  | nil => rfl
  | cons e rest ih =>
    rw [StoreEvent.observed, replies, List.zip_cons_cons, List.filter_cons, List.filter_cons]
    cases he : e.isCacheOnly with
    | true =>
      rw [react_of_isCacheOnly he]
      exact ih s
    | false => exact congrArg ((s.react e).1 :: ·) (ih (s.react e).2)

end DirectStore

namespace Store

/-- A store gives the replies of one that reads its tables every time. Clearing the caches, or
entries that go missing from them, change no other reply, wherever in the run they stand. -/
theorem caches_transparent :
    (∀ events, fresh.replies events = DirectStore.fresh.replies events) ∧
    (∀ events, StoreEvent.observed events (fresh.replies events) =
      fresh.replies (events.filter (!·.isCacheOnly))) ∧
    ∀ before after now, StoreEvent.observed (before ++ .request now .clearCaches :: after)
        (fresh.replies (before ++ .request now .clearCaches :: after)) =
      StoreEvent.observed (before ++ after) (fresh.replies (before ++ after)) := by
  have hdirect : ∀ events, fresh.replies events = DirectStore.fresh.replies events :=
    fun events => replies_eq_direct events (s := .fresh) (.empty _)
  have hobserved : ∀ events, StoreEvent.observed events (fresh.replies events) =
      fresh.replies (events.filter (!·.isCacheOnly)) := by
    intro events
    rw [hdirect, hdirect]
    exact DirectStore.observed_replies events .fresh
  refine ⟨hdirect, hobserved, fun before after now => ?_⟩
  have hclear : (StoreEvent.request now .clearCaches).isCacheOnly = true := rfl
  rw [hobserved, hobserved, List.filter_append, List.filter_append, List.filter_cons, hclear]
  rfl

end Store
end PollKeeper
