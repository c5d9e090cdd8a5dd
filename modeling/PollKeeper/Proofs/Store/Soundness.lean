import PollKeeper.Proofs.Storage.Content
import PollKeeper.Proofs.Store.Changes
import PollKeeper.Proofs.Store.Effects

/-!
# Stored polls

Whatever happens to a store, the rows under each key stand for a valid poll, or there are none. A
request that changes a poll leaves the poll that one expects.
-/

namespace PollKeeper

open Time

/-- What a request that succeeds leaves of the poll that it changes. -/
def GuildRequest.leaves (key : PollKey) : GuildRequest → Option Poll → Option Poll
  | .insert _ p, _ => some (p.under key)
  | .update _ p, some q => some (q.revised p)
  | .edit _ e, some q => some (q.edited e)
  | .cast _ voter chosen, some q => some (q.answered voter (.ofList chosen))
  | _, o => o

namespace Tables

variable {t t' u : Tables} {key : PollKey} {o : Option Poll} {now : Instant}

/-- The rows under each key stand for a valid poll of that key, or there are none. -/
def Sound (t : Tables) : Prop := ∀ key, ∃ o, (t.slice key).Denotes key o

theorem sound_empty : empty.Sound := fun _ => ⟨none, rfl, rfl, rfl⟩

theorem eq_some_of_fetch {q : Poll} (ho : (t.slice key).Denotes key o) (h : t.fetch key = .ok q) :
    o = some q := by
  have hread := (poll?_of_denotes ho).symm.trans (fetch_eq_ok h)
  exact Except.ok.inj hread

theorem fetch_of_denotes {q : Poll} (ho : (t.slice key).Denotes key (some q)) :
    t.fetch key = .ok q := by
  rw [fetch, poll?_of_denotes ho]
  rfl

theorem denotes_create {p : Poll} (ho : (t.slice key).Denotes key o)
    (h : t.create key p now = .ok t') : (t'.slice key).Denotes key (some (p.under key)) := by
  obtain ⟨hvalid, hinsert⟩ := create_eq_ok h
  obtain ⟨hnew, rfl⟩ := insertPoll_eq_ok hinsert
  obtain rfl := ho.eq_none hnew
  exact ⟨rfl, stores_withPoll (p := p.under key) ho (Poll.validate_eq_ok_iff.mp hvalid) now.millis⟩

theorem denotes_revise {p : Poll} (ho : (t.slice key).Denotes key o)
    (h : t.revise key p now = .ok t') :
    ∃ q, o = some q ∧ (t'.slice key).Denotes key (some (q.revised p)) := by
  obtain ⟨hvalid, hupdate⟩ := revise_eq_ok h
  obtain ⟨⟨r, hr⟩, rfl⟩ := modifyRow?_eq_ok hupdate
  obtain ⟨q, rfl⟩ := ho.isSome hr
  obtain ⟨rfl, hstores⟩ := ho
  exact ⟨q, rfl, rfl, stores_withDetails hstores (Poll.validate_eq_ok_iff.mp hvalid) now.millis⟩

theorem denotes_amend {e : Edit} {p : Poll} (ho : (t.slice key).Denotes key o)
    (h : t.amend key e now = .ok (p, t')) :
    ∃ q, o = some q ∧ p = q.edited e ∧ (t'.slice key).Denotes key (some p) := by
  obtain ⟨q, hfetch, rfl, hrevise⟩ := amend_eq_ok h
  obtain rfl := eq_some_of_fetch ho hfetch
  obtain ⟨q', hq, hdenotes⟩ := denotes_revise ho hrevise
  cases hq
  exact ⟨q, rfl, rfl, hdenotes⟩

theorem denotes_castAnswers {voter : UserId} {chosen : IdSet} (ho : (t.slice key).Denotes key o)
    (h : t.castAnswers key voter chosen now = .ok t') :
    ∃ q, o = some q ∧ q.checkSelection chosen = .ok () ∧
      (t'.slice key).Denotes key (some (q.answered voter chosen)) := by
  obtain ⟨q, hfetch, hchecked, hreplaced⟩ := castAnswers_eq_ok h
  obtain rfl := eq_some_of_fetch ho hfetch
  obtain ⟨rfl, hstores⟩ := ho
  have hknown := (Poll.checkSelection_eq_ok_iff.mp hchecked).1
  exact ⟨q, rfl, hchecked, rfl, stores_replaceAnswers hstores hknown hreplaced⟩

/-- A request that succeeds leaves the expected poll in place of the one that it changes. -/
theorem denotes_serve {guild : GuildId} {r : GuildRequest} {a : Answer} {id : PollId}
    (ho : (t.slice ⟨guild, id⟩).Denotes ⟨guild, id⟩ o) (hid : r.changed? = some id)
    (h : t.serve guild now r = .ok (a, t')) :
    (t'.slice ⟨guild, id⟩).Denotes ⟨guild, id⟩ (r.leaves ⟨guild, id⟩ o) := by
  cases r with
  | insert _ p =>
    cases hid
    obtain ⟨x, hx, he⟩ := bind_eq_ok h
    cases he
    exact denotes_create ho hx
  | update _ p =>
    cases hid
    obtain ⟨x, hx, he⟩ := bind_eq_ok h
    cases he
    obtain ⟨q, rfl, hdenotes⟩ := denotes_revise ho hx
    exact hdenotes
  | edit _ e =>
    cases hid
    obtain ⟨⟨p, x⟩, hx, he⟩ := bind_eq_ok h
    cases he
    obtain ⟨q, rfl, rfl, hdenotes⟩ := denotes_amend ho hx
    exact hdenotes
  | cast _ voter chosen =>
    cases hid
    obtain ⟨x, hx, he⟩ := bind_eq_ok h
    cases he
    obtain ⟨q, rfl, -, hdenotes⟩ := denotes_castAnswers ho hx
    exact hdenotes
  | settings | setSettings _ | poll _ | pollIds | lastEdit _ => cases hid

def Drops (t t' : Tables) : Prop :=
  ∀ key o, (t.slice key).Denotes key o → (t'.slice key).Denotes key o ∨ (t'.slice key).Denotes key none

theorem Thins.drops (h : t.Thins t') : t.Drops t' := by
  intro key o ho
  rcases h.slice key with hsame | hgone
  · exact .inl (hsame ▸ ho)
  · exact .inr (hgone ▸ PollSlice.denotes_nothing key)

theorem Drops.sound (h : t.Drops t') (ht : t.Sound) : t'.Sound := by
  intro key
  obtain ⟨o, ho⟩ := ht key
  rcases h key o ho with hsame | hgone
  · exact ⟨o, hsame⟩
  · exact ⟨none, hgone⟩

private theorem sound_serve {guild : GuildId} {r : GuildRequest} {a : Answer} (ht : t.Sound)
    (h : t.serve guild now r = .ok (a, t')) : t'.Sound := by
  have hchanges := changes_serve h
  cases hid : r.changed? with
  | none =>
    rw [hid] at hchanges
    exact hchanges.drops.sound ht
  | some id =>
    rw [hid] at hchanges
    intro key
    obtain ⟨o, ho⟩ := ht key
    by_cases hkey : key = ⟨guild, id⟩
    · subst hkey
      exact ⟨_, denotes_serve ho hid h⟩
    · exact ⟨o, (hchanges.others key hkey).symm ▸ ho⟩

end Tables

namespace DirectStore

/-- An event serves the request that it grants. Any other one changes no poll and at most drops some. -/
theorem serves_or_drops (s : DirectStore) (e : StoreEvent) :
    match e.granted? (s.react e).1 with
    | some (guild, r) => ∃ now a, s.tables.serve guild now r = .ok (a, (s.react e).2.tables)
    | none => s.tables.Drops (s.react e).2.tables := by
  have hstep := s.serves_or_thins e
  cases hgranted : e.granted? (s.react e).1 with
  | some granted =>
    rw [hgranted] at hstep
    obtain ⟨now, a, hserve, -⟩ := hstep
    exact ⟨now, a, hserve⟩
  | none =>
    rw [hgranted] at hstep
    cases hclients : e.isClients with
    | true => exact (hstep.2 hclients).drops
    | false =>
      -- The events that are left make notes about edits and refreshes.
      cases e with
      | request now r =>
        cases r with
        | markFinal keys => exact fun _ _ ho => .inl (Tables.denotes_markFinal keys ho)
        | markSeen edits => exact fun _ _ ho => .inl (Tables.denotes_markSeen _ ho)
        | persist keys =>
          obtain ⟨added, hsaved, -⟩ := Tables.savePending_eq keys s.tables
          have htables : (s.react (.request now (.persist keys))).2.tables =
              { s.tables with pending := s.tables.pending ++ added } := hsaved
          rw [htables]
          exact fun _ _ ho => .inl (Tables.denotes_pending ho _)
        | takePersisted guild => exact fun _ _ ho => .inl (Tables.denotes_pending ho _)
        | ofGuild | deleteExpired | endedUnrefreshed | editedSince | clearCaches => cases hclients
      | acquire | acquireUnless | wait | giveUp | release | evict => cases hclients

theorem sound_react {s : DirectStore} (hs : s.tables.Sound) (e : StoreEvent) :
    (s.react e).2.tables.Sound := by
  have hstep := s.serves_or_drops e
  cases hgranted : e.granted? (s.react e).1 with
  | some granted =>
    rw [hgranted] at hstep
    obtain ⟨now, a, hserve⟩ := hstep
    exact Tables.sound_serve hs hserve
  | none =>
    rw [hgranted] at hstep
    exact hstep.sound hs

end DirectStore

namespace Store

/-- What is kept by every event of a store without caches holds in every run of a store. -/
theorem tables_after {P : Tables → Prop} (hempty : P .empty)
    (hreact : ∀ (s : DirectStore) e, P s.tables → P (s.react e).2.tables)
    (events : List StoreEvent) : P (fresh.after events).database.tables := by
  have hall : ∀ s : Store, s.Coherent → P s.database.tables →
      P (s.after events).database.tables := by
    induction events with
    | nil => exact fun _ _ h => h
    | cons e rest ih =>
      intro s hs h
      obtain ⟨hcoherent, -, htables⟩ := leaves_react hs e
      exact ih _ hcoherent (htables ▸ hreact s.direct e h)
  exact hall fresh coherent_fresh hempty

theorem serves_or_drops {s : Store} (hs : s.Coherent) (e : StoreEvent) :
    match e.granted? (s.react e).1 with
    | some (guild, r) =>
      ∃ now a, s.database.tables.serve guild now r = .ok (a, (s.react e).2.database.tables)
    | none => s.database.tables.Drops (s.react e).2.database.tables := by
  obtain ⟨-, hreply, htables⟩ := leaves_react hs e
  have hstep := s.direct.serves_or_drops e
  rwa [← hreply, ← htables] at hstep

theorem sound_after (events : List StoreEvent) : (fresh.after events).database.tables.Sound :=
  tables_after Tables.sound_empty (fun _ e hs => DirectStore.sound_react hs e) events

end Store
end PollKeeper
