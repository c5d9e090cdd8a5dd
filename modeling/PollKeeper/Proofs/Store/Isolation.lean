import PollKeeper.Proofs.Storage.Guild
import PollKeeper.Proofs.Store.Soundness

/-!
# Guilds are isolated

A request within a guild depends on nothing but what the tables and the caches hold about this guild,
and changes nothing else, whether it succeeds or fails. The caches may hold anything here, also what
the tables do not show.
-/

namespace PollKeeper

open Time StoreAction

variable {α β : Type} {guild : GuildId}

theorem PollKey.ne_of_guild {key : PollKey} {other : GuildId} {id : PollId} (h : other ≠ key.guild) :
    (⟨other, id⟩ : PollKey) ≠ key := fun he => h (congrArg PollKey.guild he)

structure Caches.AgreeOn (guild : GuildId) (c c' : Caches) : Prop where
  settings : c.settings.get? guild = c'.settings.get? guild
  polls : ∀ id, c.polls.get? ⟨guild, id⟩ = c'.polls.get? ⟨guild, id⟩
  pollIds : c.pollIds.get? guild = c'.pollIds.get? guild

namespace Store

/-- Two stores hold the same about a guild. -/
structure AgreeOn (guild : GuildId) (s s' : Store) : Prop where
  closed : s.database.closed = s'.database.closed
  tables : s.database.tables.AgreeOn guild s'.database.tables
  caches : s.caches.AgreeOn guild s'.caches

/-- Nothing but what is held about a guild has changed. -/
structure Spares (guild : GuildId) (s s' : Store) : Prop where
  closed : s'.database.closed = s.database.closed
  tables : s'.database.tables.others guild = s.database.tables.others guild
  caches : ∀ other ≠ guild, s'.caches.AgreeOn other s.caches
  locks : s'.locks = s.locks

theorem Spares.refl (s : Store) : Spares guild s s := ⟨rfl, rfl, fun _ _ => ⟨rfl, fun _ => rfl, rfl⟩, rfl⟩

theorem Spares.trans {s s' u : Store} (h : Spares guild s s') (h' : Spares guild s' u) :
    Spares guild s u where
  closed := h'.closed.trans h.closed
  tables := h'.tables.trans h.tables
  caches other ho :=
    have hc := h.caches other ho
    have hc' := h'.caches other ho
    ⟨hc'.settings.trans hc.settings, fun id => (hc'.polls id).trans (hc.polls id),
      hc'.pollIds.trans hc.pollIds⟩
  locks := h'.locks.trans h.locks

end Store

/-- An action that looks at nothing but what is held about a guild, and changes nothing else. -/
structure Isolated (guild : GuildId) (a : StoreAction α) : Prop where
  alike : ∀ {s s' : Store}, s.AgreeOn guild s' →
    (a.outcome s).1 = (a.outcome s').1 ∧ (a.outcome s).2.AgreeOn guild (a.outcome s').2
  spares : ∀ s : Store, s.Spares guild (a.outcome s).2

namespace Isolated

theorem of_result {a : StoreAction α} {r : Except StoreError α} (h : ∀ s, a.outcome s = (r, s)) :
    Isolated guild a where
  alike hs := by
    rw [h, h]
    exact ⟨rfl, hs⟩
  spares s := by
    rw [h]
    exact .refl s

theorem pure (x : α) : Isolated guild (Pure.pure x : StoreAction α) := of_result fun _ => rfl

theorem bind {a : StoreAction α} {b : α → StoreAction β} (ha : Isolated guild a)
    (hb : ∀ x, Isolated guild (b x)) : Isolated guild (a >>= b) where
  alike {s s'} hs := by
    obtain ⟨hresult, hagree⟩ := ha.alike hs
    rw [outcome_bind, outcome_bind]
    generalize a.outcome s = o at hresult hagree
    generalize a.outcome s' = o' at hresult hagree
    obtain ⟨result, u⟩ := o
    obtain ⟨result', u'⟩ := o'
    cases hresult
    cases result with
    | error e => exact ⟨rfl, hagree⟩
    | ok x => exact (hb x).alike hagree
  spares s := by
    have hspares := ha.spares s
    rw [outcome_bind]
    generalize a.outcome s = o at hspares
    obtain ⟨_ | x, u⟩ := o
    · exact hspares
    · exact hspares.trans ((hb x).spares u)

theorem map {a : StoreAction α} (ha : Isolated guild a) (f : α → β) : Isolated guild (f <$> a) := by
  rw [map_eq_pure_bind]
  exact ha.bind fun x => .pure (f x)

theorem answer {a : StoreAction Unit} (ha : Isolated guild a) (x : β) :
    Isolated guild (a *> Pure.pure x) := by
  rw [seqRight_eq_bind]
  exact ha.bind fun _ => .pure x

theorem orInvalid (r : Except PollError α) : Isolated guild (StoreAction.orInvalid r) :=
  of_result fun s => outcome_orInvalid r s

theorem of_except (r : Except StoreError α) : Isolated guild (liftExcept r : StoreAction α) :=
  of_result fun s => outcome_liftExcept r s

theorem look {f : Tables → Except StorageError α}
    (hf : ∀ {t t' : Tables}, t.AgreeOn guild t' → f t = f t') : Isolated guild (StoreAction.look f) where
  alike hs := by
    rw [outcome_look, outcome_look, Database.read, Database.read, hs.closed, hf hs.tables]
    exact ⟨rfl, hs⟩
  spares s := by
    rw [outcome_look]
    exact .refl s

theorem change_ {f : Tables → Except StorageError Tables} (hf : Tables.Confined guild f) :
    Isolated guild (StoreAction.change_ f) where
  alike {s s'} hs := by
    have halike := hf.alike hs.tables
    simp only [StoreAction.change_, outcome_change, Database.write, Database.read, ← hs.closed]
    cases hclosed : s.database.closed with
    | true => exact ⟨rfl, hs⟩
    | false =>
      cases hu : f s.database.tables with
      | error e =>
        rw [hu] at halike
        cases hu' : f s'.database.tables with
        | error e' =>
          rw [hu'] at halike
          cases halike
          exact ⟨rfl, hs⟩
        | ok u' =>
          rw [hu'] at halike
          cases halike
      | ok u =>
        rw [hu] at halike
        cases hu' : f s'.database.tables with
        | error e' =>
          rw [hu'] at halike
          cases halike
        | ok u' =>
          rw [hu'] at halike
          cases halike with
          | ok hrows =>
            exact ⟨rfl, rfl, ⟨hf.keys hs.tables.left hu, hf.keys hs.tables.right hu', hrows⟩,
              hs.caches⟩
  spares s := by
    simp only [StoreAction.change_, outcome_change, Database.write, Database.read]
    cases hclosed : s.database.closed with
    | true => exact .refl s
    | false =>
      cases hu : f s.database.tables with
      | error e => exact .refl s
      | ok u => exact ⟨hclosed.symm, hf.others hu, fun _ _ => ⟨rfl, fun _ => rfl, rfl⟩, rfl⟩

theorem modifyCaches {g : Caches → Caches}
    (hg : ∀ {c c' : Caches}, c.AgreeOn guild c' → (g c).AgreeOn guild (g c'))
    (hothers : ∀ (c : Caches), ∀ other ≠ guild, (g c).AgreeOn other c) :
    Isolated guild (StoreAction.modifyCaches g) where
  alike hs := ⟨rfl, hs.closed, hs.tables, hg hs.caches⟩
  spares s := ⟨rfl, rfl, hothers s.caches, rfl⟩

theorem cached {lookup : Caches → Option α} {a miss : StoreAction α}
    (hlookup : ∀ {c c' : Caches}, c.AgreeOn guild c' → lookup c = lookup c')
    (hmiss : Isolated guild miss)
    (h : ∀ s, a.outcome s = match lookup s.caches with
      | some x => (.ok x, s)
      | none => miss.outcome s) : Isolated guild a where
  alike {s s'} hs := by
    rw [h, h, hlookup hs.caches]
    cases lookup s'.caches with
    | some x => exact ⟨rfl, hs⟩
    | none => exact hmiss.alike hs
  spares s := by
    rw [h]
    cases lookup s.caches with
    | some x => exact .refl s
    | none => exact hmiss.spares s

end Isolated

namespace Store

theorem isolated_forgetPoll (key : PollKey) :
    Isolated key.guild (modifyCaches (·.forgetPoll key)) := by
  refine .modifyCaches (fun h => ⟨h.settings, fun id => ?_, h.pollIds⟩)
    fun c other ho => ⟨rfl, fun id => ?_, rfl⟩
  · simp only [Caches.forgetPoll, Keyed.get?_erase, h.polls]
  · simp only [Caches.forgetPoll, Keyed.get?_erase, if_neg (PollKey.ne_of_guild ho)]

private theorem isolated_forgetListed (key : PollKey) :
    Isolated key.guild (modifyCaches (·.forgetListed key)) := by
  refine .modifyCaches (fun h => ⟨h.settings, fun id => ?_, ?_⟩)
    fun c other ho => ⟨rfl, fun id => ?_, ?_⟩
  · simp only [Caches.forgetListed, Caches.forgetPoll, Keyed.get?_erase, h.polls]
  · simp only [Caches.forgetListed, Caches.forgetPoll, Keyed.get?_erase, if_true]
  · simp only [Caches.forgetListed, Caches.forgetPoll, Keyed.get?_erase,
      if_neg (PollKey.ne_of_guild ho)]
  · simp only [Caches.forgetListed, Caches.forgetPoll, Keyed.get?_erase, if_neg ho]

private theorem isolated_settings (guild : GuildId) : Isolated guild (settings guild) := by
  have hmiss : Isolated guild (do
      let s ← look (·.settingsOf guild)
      modifyCaches fun c => { c with settings := c.settings.set guild s }
      pure s) := by
    refine .bind (.look fun h => h.settingsOf_eq) fun s => .bind (.modifyCaches
      (fun h => ⟨?_, h.polls, h.pollIds⟩) fun c other ho => ⟨?_, fun _ => rfl, rfl⟩) fun _ => .pure s
    · simp only [Keyed.get?_set, if_true]
    · simp only [Keyed.get?_set, if_neg ho]
  refine .cached (fun h => h.settings) hmiss fun s => ?_
  rw [settings, outcome_bind, outcome_get]
  dsimp only
  cases s.caches.settings.get? guild <;> rfl

private theorem isolated_setSettings (guild : GuildId) (s : Settings) :
    Isolated guild (setSettings guild s) := by
  refine .bind (.change_ (Tables.confined_putSettings (.ofSettings guild s))) fun _ =>
    .modifyCaches (fun h => ⟨?_, h.polls, h.pollIds⟩) fun c other ho => ⟨?_, fun _ => rfl, rfl⟩
  · simp only [Caches.forgetSettings, Keyed.get?_erase, if_true]
  · simp only [Caches.forgetSettings, Keyed.get?_erase, if_neg ho]

theorem isolated_poll (key : PollKey) : Isolated key.guild (poll key) := by
  have hmiss : Isolated key.guild (do
      let p ← look (·.fetch key)
      modifyCaches fun c => { c with polls := c.polls.set key p }
      pure p) := by
    refine .bind (.look fun h => h.fetch_eq rfl) fun p => .bind (.modifyCaches
      (fun h => ⟨h.settings, fun id => ?_, h.pollIds⟩) fun c other ho => ⟨rfl, fun id => ?_, rfl⟩)
      fun _ => .pure p
    · simp only [Keyed.get?_set, h.polls]
    · simp only [Keyed.get?_set, if_neg (PollKey.ne_of_guild ho)]
  refine .cached (fun h => h.polls key.poll) hmiss fun s => ?_
  rw [poll, outcome_bind, outcome_get]
  dsimp only
  cases s.caches.polls.get? key <;> rfl

private theorem isolated_pollIds (guild : GuildId) : Isolated guild (pollIds guild) := by
  have hmiss : Isolated guild (do
      let ids ← look fun t => .ok (.ofList (t.pollIds guild))
      modifyCaches fun c => { c with pollIds := c.pollIds.set guild ids }
      pure ids) := by
    refine .bind (.look fun h => congrArg Except.ok h.pollIds_eq) fun ids => .bind (.modifyCaches
      (fun h => ⟨h.settings, h.polls, ?_⟩) fun c other ho => ⟨rfl, fun _ => rfl, ?_⟩) fun _ => .pure ids
    · simp only [Keyed.get?_set, if_true]
    · simp only [Keyed.get?_set, if_neg ho]
  refine .cached (fun h => h.pollIds) hmiss fun s => ?_
  rw [pollIds, outcome_bind, outcome_get]
  dsimp only
  cases s.caches.pollIds.get? guild <;> rfl

private theorem isolated_lastEdit (key : PollKey) : Isolated key.guild (lastEdit key) :=
  .bind (.look fun h => by rw [h.stamp?_eq rfl]) fun stamp => .of_except (PollEdit.ofStamp stamp)

/-- The guild that a new poll names itself plays no part. -/
theorem isolated_insert (key : PollKey) (p : Poll) (now : Instant) :
    Isolated key.guild (insert key p now) :=
  .bind (.orInvalid _) fun _ =>
    .bind (.change_ (Tables.confined_insertPoll { p with guild := key.guild, id := key.poll } _))
      fun _ => isolated_forgetListed key

theorem isolated_update (key : PollKey) (p : Poll) (now : Instant) :
    Isolated key.guild (update key p now) :=
  .bind (.orInvalid _) fun _ =>
    .bind (.change_ (Tables.confined_modifyRow? (Tables.keepsKey_withDetails _ _ _ _) rfl)) fun _ =>
      isolated_forgetPoll key

private theorem isolated_edit (key : PollKey) (e : Edit) (now : Instant) :
    Isolated key.guild (edit key e now) :=
  .bind (isolated_poll key) fun p => .bind (.orInvalid (p.apply e)) fun p =>
    .bind (isolated_update key p now) fun _ => .pure p

private theorem isolated_cast (key : PollKey) (voter : UserId) (chosen : List ChoiceId) (now : Instant) :
    Isolated key.guild (cast key voter chosen now) := by
  refine .bind (isolated_poll key) fun p => ?_
  cases p.checkSelection (IdSet.ofList chosen) with
  | error r => exact .of_except (.error (.invalid (.ballot r)))
  | ok _ =>
    exact .bind (.change_ (Tables.confined_replaceAnswers rfl voter _ _)) fun _ =>
      isolated_forgetPoll key

theorem isolated_answerIn (guild : GuildId) (now : Instant) (r : GuildRequest) :
    Isolated guild (answerIn guild now r) := by
  cases r with
  | settings => exact (isolated_settings guild).map _
  | setSettings s => exact (isolated_setSettings guild s).answer _
  | poll id => exact (isolated_poll ⟨guild, id⟩).map _
  | insert id p => exact (isolated_insert ⟨guild, id⟩ p now).answer _
  | update id p => exact (isolated_update ⟨guild, id⟩ p now).answer _
  | edit id e => exact (isolated_edit ⟨guild, id⟩ e now).map _
  | cast id voter chosen => exact (isolated_cast ⟨guild, id⟩ voter chosen now).answer _
  | pollIds => exact (isolated_pollIds guild).map _
  | lastEdit id => exact (isolated_lastEdit ⟨guild, id⟩).map _

theorem primaryKeys_answerIn {s : Store} (hs : s.database.tables.PrimaryKeys) (guild : GuildId)
    (now : Instant) (r : GuildRequest) :
    ((answerIn guild now r).outcome s).2.database.tables.PrimaryKeys := by
  have hself : s.AgreeOn guild s :=
    ⟨rfl, ⟨hs, hs, fun _ _ => .rfl, fun _ _ => .rfl, fun _ _ => .rfl, fun _ _ => .rfl,
      fun _ _ => .rfl⟩, rfl, fun _ => rfl, rfl⟩
  exact ((isolated_answerIn guild now r).alike hself).2.tables.left

end Store

namespace Tables

variable {t t' : Tables}

private theorem PrimaryKeys.serve (h : t.PrimaryKeys) {guild : GuildId} {now : Instant} {r : GuildRequest}
    {a : Answer} (hr : t.serve guild now r = .ok (a, t')) : t'.PrimaryKeys := by
  have hleaves := (Store.serves_answerIn guild now r).leaves (s := ⟨⟨t, false⟩, .empty, .empty⟩)
    ⟨rfl, .empty t⟩
  have hkeys := Store.primaryKeys_answerIn (s := ⟨⟨t, false⟩, .empty, .empty⟩) h guild now r
  have htables : _ = t.afterwards (t.serve guild now r) := hleaves.tables
  rw [htables, hr] at hkeys
  exact hkeys

private theorem PrimaryKeys.modifyRowIf (h : t.PrimaryKeys) {f : PollRow → PollRow} (hf : KeepsKey f)
    (key : PollKey) (p : PollRow → Bool) : (t.modifyRowIf key p f).2.PrimaryKeys := by
  rw [modifyRowIf_snd]
  split
  · exact ⟨h.settings, (keys_modifyRow hf t key).symm ▸ h.polls, h.choices⟩
  · exact h

theorem PrimaryKeys.removePoll (h : t.PrimaryKeys) (key : PollKey) : (t.removePoll key).PrimaryKeys :=
  ⟨h.settings, h.polls.sublist (List.filter_sublist.map _),
    h.choices.sublist (List.filter_sublist.map _)⟩

end Tables

theorem DirectStore.primaryKeys_react (s : DirectStore) (e : StoreEvent)
    (hs : s.tables.PrimaryKeys) : (s.react e).2.tables.PrimaryKeys := by
  cases e with
  | request now r =>
    cases r with
    | ofGuild h r =>
      simp only [react, answer]
      split
      · cases hr : s.tables.serve h.guild now r with
        | error e => exact hs
        | ok x => exact hs.serve hr
      · exact hs
    | deleteExpired before =>
      exact deleteExpired_keeps (fun t key _ ht => ht.removePoll key) s before hs
    | markFinal keys =>
      exact Tables.countChanges_keeps (P := Tables.PrimaryKeys)
        (fun t key ht => ht.modifyRowIf (Tables.invisible_finalRefreshed 1).keepsKey key _) keys hs
    | markSeen edits =>
      exact Tables.countChanges_keeps (P := Tables.PrimaryKeys)
        (fun t e ht => ht.modifyRowIf (Tables.keepsKey_withSeen e.editedAt) e.key _) _ hs
    | persist keys =>
      obtain ⟨added, hsaved, -⟩ := Tables.savePending_eq keys s.tables
      have htables : (s.react (.request now (.persist keys))).2.tables =
          { s.tables with pending := s.tables.pending ++ added } := hsaved
      rw [htables]
      exact ⟨hs.settings, hs.polls, hs.choices⟩
    | takePersisted guild => exact ⟨hs.settings, hs.polls, hs.choices⟩
    | editedSince cutoff =>
      simp only [react, answer]
      cases (s.tables.unseenSince cutoff.millis).mapM PollEdit.ofStamp <;> exact hs
    | endedUnrefreshed _ | clearCaches => exact hs
  | acquire _ | acquireUnless _ _ | wait _ | giveUp _ | release _ | evict _ _ _ => exact hs

namespace Store

/-- In every run of a store the primary keys are distinct. -/
theorem primaryKeys_after (events : List StoreEvent) :
    (fresh.after events).database.tables.PrimaryKeys :=
  tables_after Tables.primaryKeys_empty DirectStore.primaryKeys_react events

theorem outcome_answer_of_isHeld {s : Store} {h : Handle} (hheld : s.locks.isHeld h) (now : Instant)
    (r : GuildRequest) :
    (answer now (.ofGuild h r)).outcome s = (answerIn h.guild now r).outcome s := by
  have hguild := outcome_guildOf h s
  rw [if_pos hheld] at hguild
  exact outcome_bind_of_ok hguild

/-- Whatever two stores hold of other guilds, a request within a guild has the same answer from both if
they agree on this guild. They still agree on it afterwards, and of the others nothing has changed. -/
theorem guilds_isolated {s s' : Store} {h h' : Handle} (hs : s.AgreeOn guild s')
    (hh : h.guild = guild) (hh' : h'.guild = guild) (hheld : s.locks.isHeld h)
    (hheld' : s'.locks.isHeld h') (now : Instant) (r : GuildRequest) :
    ((answer now (.ofGuild h r)).outcome s).1 = ((answer now (.ofGuild h' r)).outcome s').1 ∧
      ((answer now (.ofGuild h r)).outcome s).2.AgreeOn guild
        ((answer now (.ofGuild h' r)).outcome s').2 ∧
      s.Spares guild ((answer now (.ofGuild h r)).outcome s).2 ∧
      s'.Spares guild ((answer now (.ofGuild h' r)).outcome s').2 := by
  rw [outcome_answer_of_isHeld hheld, outcome_answer_of_isHeld hheld', hh, hh']
  have hisolated := isolated_answerIn guild now r
  obtain ⟨hresult, hagree⟩ := hisolated.alike hs
  exact ⟨hresult, hagree, hisolated.spares s, hisolated.spares s'⟩

/-- What changes within a guild is nothing to the other guilds. -/
theorem Spares.agreeOn {s s' : Store} {other : GuildId} (h : s.Spares guild s') (ho : other ≠ guild)
    (hs : s.database.tables.PrimaryKeys) (hs' : s'.database.tables.PrimaryKeys) :
    s.AgreeOn other s' := by
  obtain ⟨hsettings, hpolls, hchoices, hanswers, hpending⟩ := Tables.mk.inj h.tables
  have hrows : ∀ {α : Type} {f : α → GuildId} {xs ys : List α},
      xs.filter (f · ≠ guild) = ys.filter (f · ≠ guild) → ∀ x, f x = other → (x ∈ ys ↔ x ∈ xs) := by
    intro α f xs ys hfilter x hx
    have hmem : ∀ rows : List α, x ∈ rows.filter (f · ≠ guild) ↔ x ∈ rows := by
      simp [hx, ho]
    rw [← hmem xs, ← hmem ys, hfilter]
  have hcaches := h.caches other ho
  exact ⟨h.closed.symm, ⟨hs, hs', hrows hsettings, hrows hpolls, hrows hchoices, hrows hanswers,
    hrows hpending⟩, hcaches.settings.symm, fun id => (hcaches.polls id).symm, hcaches.pollIds.symm⟩

def twoLocked : Store := fresh.after [.acquire 1, .acquire 2]

/-- Guild 2 has a poll with the id that guild 1 takes for its own. -/
theorem guilds_isolated_of_sameId :
    let s := ((answer .earliest (.ofGuild ⟨2, 1⟩ (.insert 7 .lunch))).outcome twoLocked).2
    let r := Request.ofGuild ⟨1, 0⟩ (.insert 7 (Poll.lunch.under ⟨2, 7⟩))
    (s.database.tables.row? ⟨2, 7⟩).isSome ∧
    ((answer .earliest r).outcome twoLocked).1 = ((answer .earliest r).outcome s).1 ∧
      ((answer .earliest r).outcome twoLocked).2.AgreeOn 1 ((answer .earliest r).outcome s).2 ∧
      twoLocked.Spares 1 ((answer .earliest r).outcome twoLocked).2 ∧
      s.Spares 1 ((answer .earliest r).outcome s).2 := by
  intro s r
  have hheld : twoLocked.locks.isHeld ⟨2, 1⟩ = true := by decide
  have hs : s = ((answerIn 2 .earliest (.insert 7 .lunch)).outcome twoLocked).2 :=
    congrArg Prod.snd (outcome_answer_of_isHeld hheld .earliest (.insert 7 .lunch))
  have hkeys := primaryKeys_after [.acquire 1, .acquire 2]
  have hagree : twoLocked.AgreeOn 1 s := by
    rw [hs]
    exact ((isolated_answerIn 2 .earliest (.insert 7 .lunch)).spares twoLocked).agreeOn (by decide) hkeys
      (primaryKeys_answerIn hkeys 2 .earliest (.insert 7 .lunch))
  exact ⟨by decide +kernel,
    guilds_isolated hagree rfl rfl (by decide) (by decide +kernel) .earliest _⟩

end Store
end PollKeeper
