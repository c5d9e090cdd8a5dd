import PollKeeper.Proofs.Store.Direct
import PollKeeper.Proofs.Store.Outcome

/-!
# Caches show the tables

Whatever a cache holds is what the tables would give now. Every request keeps this, failed ones and
sweeps over all guilds included, so a store answers like one that has no caches.
-/

namespace PollKeeper

open Time StoreAction

variable {α β : Type}

/-- The caches hold nothing but what the tables would give now. -/
structure Caches.Coherent (c : Caches) (t : Tables) : Prop where
  settings : ∀ guild s, c.settings.get? guild = some s → t.settingsOf guild = .ok s
  polls : ∀ key p, c.polls.get? key = some p → t.fetch key = .ok p
  pollIds : ∀ guild ids, c.pollIds.get? guild = some ids → IdSet.ofList (t.pollIds guild) = ids

namespace Caches.Coherent

variable {c : Caches} {t t' : Tables}

theorem empty (t : Tables) : Caches.empty.Coherent t := by
  refine ⟨?_, ?_, ?_⟩ <;> simp [Caches.empty]

theorem setSettings (h : c.Coherent t) {guild : GuildId} {s : Settings}
    (hs : t.settingsOf guild = .ok s) :
    Caches.Coherent { c with settings := c.settings.set guild s } t := by
  refine ⟨fun g s' hg => ?_, h.polls, h.pollIds⟩
  rw [Keyed.get?_set] at hg
  split at hg
  · next he => rw [he, hs, Option.some.inj hg]
  · exact h.settings g s' hg

theorem setPoll (h : c.Coherent t) {key : PollKey} {p : Poll} (hp : t.fetch key = .ok p) :
    Caches.Coherent { c with polls := c.polls.set key p } t := by
  refine ⟨h.settings, fun k p' hk => ?_, h.pollIds⟩
  rw [Keyed.get?_set] at hk
  split at hk
  · next he => rw [he, hp, Option.some.inj hk]
  · exact h.polls k p' hk

theorem setPollIds (h : c.Coherent t) (guild : GuildId) :
    Caches.Coherent { c with pollIds := c.pollIds.set guild (.ofList (t.pollIds guild)) } t := by
  refine ⟨h.settings, h.polls, fun g ids hg => ?_⟩
  rw [Keyed.get?_set] at hg
  split at hg
  · next he => rw [he, Option.some.inj hg]
  · exact h.pollIds g ids hg

theorem of_sameContent (h : c.Coherent t) (hs : t.SameContent t') : c.Coherent t' := by
  refine ⟨fun g s hg => ?_, fun k p hk => ?_, fun g ids hg => ?_⟩
  · have hsettings : t'.settingsOf g = t.settingsOf g := by
      simp only [Tables.settingsOf, Tables.settingsRow?, hs.settings]
    rw [hsettings]
    exact h.settings g s hg
  · rw [Tables.fetch_congr (hs.poll? k)]
    exact h.polls k p hk
  · have hids : t'.pollIds g = t.pollIds g := by simp only [Tables.pollIds, hs.keys]
    rw [hids]
    exact h.pollIds g ids hg

/-- A poll with changed rows has to be forgotten. -/
theorem forgetPoll (h : c.Coherent t) {key : PollKey} (hsettings : t'.settings = t.settings)
    (hkeys : t'.polls.map (·.key) = t.polls.map (·.key))
    (hothers : ∀ other ≠ key, t'.slice other = t.slice other) :
    (c.forgetPoll key).Coherent t' := by
  refine ⟨fun g s hg => ?_, fun k p hk => ?_, fun g ids hg => ?_⟩
  · simp only [Tables.settingsOf, Tables.settingsRow?, hsettings]
    exact h.settings g s hg
  · simp only [Caches.forgetPoll, Keyed.get?_erase] at hk
    split at hk
    · cases hk
    · next hne =>
      rw [Tables.fetch_congr (Tables.poll?_congr (hothers k hne))]
      exact h.polls k p hk
  · simp only [Tables.pollIds, hkeys]
    exact h.pollIds g ids hg

/-- A poll that came or went has to be forgotten, and with it the ids of its guild. -/
theorem forgetListed (h : c.Coherent t) {key : PollKey} (hsettings : t'.settings = t.settings)
    (hids : ∀ guild ≠ key.guild, t'.pollIds guild = t.pollIds guild)
    (hothers : ∀ other ≠ key, t'.slice other = t.slice other) :
    (c.forgetListed key).Coherent t' := by
  refine ⟨fun g s hg => ?_, fun k p hk => ?_, fun g ids hg => ?_⟩
  · simp only [Tables.settingsOf, Tables.settingsRow?, hsettings]
    exact h.settings g s hg
  · simp only [Caches.forgetListed, Caches.forgetPoll, Keyed.get?_erase] at hk
    split at hk
    · cases hk
    · next hne =>
      rw [Tables.fetch_congr (Tables.poll?_congr (hothers k hne))]
      exact h.polls k p hk
  · simp only [Caches.forgetListed, Caches.forgetPoll, Keyed.get?_erase] at hg
    split at hg
    · cases hg
    · next hne =>
      rw [hids g hne]
      exact h.pollIds g ids hg

theorem forgetSettings (h : c.Coherent t) (row : SettingsRow) :
    (c.forgetSettings row.guild).Coherent (t.putSettings row) := by
  refine ⟨fun g s hg => ?_, fun k p hk => ?_, h.pollIds⟩
  · simp only [Caches.forgetSettings, Keyed.get?_erase] at hg
    split at hg
    · cases hg
    · next hne =>
      have hrow : (t.putSettings row).settingsOf g = t.settingsOf g := by
        simp only [Tables.settingsOf, Tables.settingsRow?_putSettings, if_neg hne]
      rw [hrow]
      exact h.settings g s hg
  · exact h.polls k p hk

end Caches.Coherent

namespace Store

/-- The tables can be reached, and the caches show them. -/
structure Coherent (s : Store) : Prop where
  isOpen : s.database.closed = false
  caches : s.caches.Coherent s.database.tables

theorem coherent_fresh : fresh.Coherent := ⟨rfl, .empty _⟩

end Store

namespace Tables

def afterwards (t : Tables) : Except StoreError (α × Tables) → Tables
  | .ok (_, t') => t'
  | .error _ => t

end Tables

def Store.served (s : Store) (r : Except StoreError (α × Tables)) (c : Caches) :
    Except StoreError α × Store :=
  (r.map (·.1), ⟨⟨s.database.tables.afterwards r, false⟩, c, s.locks⟩)

/-- A request answers and changes the tables as a function of the tables says. The locks stay, and
the caches are coherent afterwards. -/
def Serves (a : StoreAction α) (f : Tables → Except StoreError (α × Tables)) : Prop :=
  ∀ s : Store, s.Coherent → ∀ r, f s.database.tables = r →
    ∃ c : Caches, c.Coherent (s.database.tables.afterwards r) ∧ a.outcome s = s.served r c

def reading (r : Tables → Except StoreError α) (t : Tables) : Except StoreError (α × Tables) :=
  (r t).map (·, t)

namespace Serves

theorem congr {a : StoreAction α} {f g : Tables → Except StoreError (α × Tables)}
    (h : Serves a f) (hfg : ∀ t, f t = g t) : Serves a g := funext hfg ▸ h

theorem of_reading {a : StoreAction α} {f : Tables → Except StoreError α}
    (h : ∀ s : Store, s.Coherent → ∃ c : Caches, c.Coherent s.database.tables ∧
      a.outcome s = (f s.database.tables, { s with caches := c })) : Serves a (reading f) := by
  rintro ⟨⟨t, _⟩, caches, locks⟩ ⟨rfl, hcaches⟩ r hr
  obtain ⟨c, hc, ho⟩ := h _ ⟨rfl, hcaches⟩
  cases hf : f t with
  | error e =>
    simp only [reading, hf] at hr ho
    subst hr
    exact ⟨c, hc, ho⟩
  | ok x =>
    simp only [reading, hf] at hr ho
    subst hr
    exact ⟨c, hc, ho⟩

theorem bind {a : StoreAction α} {f : Tables → Except StoreError α} {b : α → StoreAction β}
    {g : α → Tables → Except StoreError (β × Tables)} (ha : Serves a (reading f))
    (hb : ∀ x, Serves (b x) (g x)) : Serves (a >>= b) (fun t => f t >>= fun x => g x t) := by
  intro s hs r hr
  obtain ⟨c, hc, ho⟩ := ha s hs _ rfl
  cases hf : f s.database.tables with
  | error e =>
    simp only [reading, hf] at hr hc ho
    subst hr
    exact ⟨c, hc, outcome_bind_of_error ho⟩
  | ok x =>
    simp only [reading, hf] at hr hc ho
    obtain ⟨c', hc', ho'⟩ := hb x ⟨⟨s.database.tables, false⟩, c, s.locks⟩ ⟨rfl, hc⟩ r hr
    exact ⟨c', hc', (outcome_bind_of_ok ho).trans ho'⟩

theorem map {a : StoreAction α} {f : Tables → Except StoreError (α × Tables)} (h : Serves a f)
    (g : α → β) : Serves (g <$> a) (fun t => (f t).map fun (x, t') => (g x, t')) := by
  intro s hs r hr
  obtain ⟨c, hc, ho⟩ := h s hs _ rfl
  have hmap : (g <$> a).outcome s = _ := outcome_map g a s
  cases hf : f s.database.tables with
  | error e =>
    simp only [hf, ho] at hr hc hmap
    subst hr
    exact ⟨c, hc, hmap⟩
  | ok y =>
    simp only [hf, ho] at hr hc hmap
    subst hr
    exact ⟨c, hc, hmap⟩

theorem answer {a : StoreAction Unit} {f : Tables → Except StoreError Tables}
    (h : Serves a fun t => (f t).map ((), ·)) (x : β) :
    Serves (a >>= fun _ => pure x) (fun t => (f t).map (x, ·)) := by
  rw [← map_eq_pure_bind]
  refine (h.map fun _ => x).congr fun t => ?_
  cases f t <;> rfl

theorem look (f : Tables → Except StorageError α) :
    Serves (StoreAction.look f) (reading fun t => (f t).mapError .ofStorage) := by
  refine of_reading fun s hs => ⟨s.caches, hs.caches, ?_⟩
  simp [outcome_look, Database.read, hs.isOpen]

theorem orInvalid (r : Except PollError α) :
    Serves (StoreAction.orInvalid r) (reading fun _ => r.mapError fun e => .invalid (.poll e)) :=
  of_reading fun s hs => ⟨s.caches, hs.caches, outcome_orInvalid r s⟩

theorem of_except (r : Except StoreError α) : Serves (liftExcept r) (reading fun _ => r) :=
  of_reading fun s hs => ⟨s.caches, hs.caches, outcome_liftExcept r s⟩

/-- A change of the tables, and an invalidation that is enough for it. -/
theorem change_ {f : Tables → Except StorageError Tables} {g : Caches → Caches}
    (hg : ∀ {t t' : Tables} {c : Caches}, f t = .ok t' → c.Coherent t → (g c).Coherent t') :
    Serves (StoreAction.change_ f >>= fun _ => modifyCaches g)
      (fun t => ((f t).mapError .ofStorage).map ((), ·)) := by
  rintro ⟨⟨t, _⟩, caches, locks⟩ ⟨rfl, hcaches⟩ r hr
  have hwrite : (StoreAction.change_ f).outcome ⟨⟨t, false⟩, caches, locks⟩ =
      match f t with
      | .ok t' => (.ok (), ⟨⟨t', false⟩, caches, locks⟩)
      | .error e => (.error (.ofStorage e), ⟨⟨t, false⟩, caches, locks⟩) := by
    rw [StoreAction.change_, outcome_change]
    simp only [Database.write, Database.read]
    cases f t <;> rfl
  cases hf : f t with
  | error e =>
    simp only [hf] at hwrite hr
    subst hr
    exact ⟨caches, hcaches, outcome_bind_of_error hwrite⟩
  | ok t' =>
    simp only [hf] at hwrite hr
    subst hr
    exact ⟨g caches, hg hf hcaches, outcome_bind_of_ok hwrite⟩

theorem count {f : Tables → α × Tables} (hf : ∀ t : Tables, t.SameContent (f t).2) :
    Serves (StoreAction.count f) (fun t => .ok (f t)) := by
  rintro ⟨⟨t, _⟩, caches, locks⟩ ⟨rfl, hcaches⟩ r rfl
  refine ⟨caches, hcaches.of_sameContent (hf t), ?_⟩
  rw [StoreAction.count, outcome_change]
  rfl

end Serves

namespace Store

private theorem serves_settings (guild : GuildId) :
    Serves (settings guild) (reading fun t => (t.settingsOf guild).mapError .ofStorage) := by
  refine .of_reading fun s hs => ?_
  simp only [settings, outcome_bind, outcome_get]
  cases hcached : s.caches.settings.get? guild with
  | some v =>
    refine ⟨s.caches, hs.caches, ?_⟩
    rw [hs.caches.settings guild v hcached]
    rfl
  | none =>
    have hread : s.database.read (·.settingsOf guild) = s.database.tables.settingsOf guild := by
      simp [Database.read, hs.isOpen]
    simp only [outcome_bind, outcome_look, hread]
    cases hsettings : s.database.tables.settingsOf guild with
    | error e => exact ⟨s.caches, hs.caches, rfl⟩
    | ok v => exact ⟨_, hs.caches.setSettings hsettings, rfl⟩

private theorem serves_setSettings (guild : GuildId) (s : Settings) :
    Serves (setSettings guild s) (fun t => .ok ((), t.putSettings (.ofSettings guild s))) :=
  .change_ fun h hc => Except.ok.inj h ▸ hc.forgetSettings (.ofSettings guild s)

theorem serves_poll (key : PollKey) :
    Serves (poll key) (reading fun t => (t.fetch key).mapError .ofStorage) := by
  refine .of_reading fun s hs => ?_
  simp only [poll, outcome_bind, outcome_get]
  cases hcached : s.caches.polls.get? key with
  | some p =>
    refine ⟨s.caches, hs.caches, ?_⟩
    rw [hs.caches.polls key p hcached]
    rfl
  | none =>
    have hread : s.database.read (·.fetch key) = s.database.tables.fetch key := by
      simp [Database.read, hs.isOpen]
    simp only [outcome_bind, outcome_look, hread]
    cases hp : s.database.tables.fetch key with
    | error e => exact ⟨s.caches, hs.caches, rfl⟩
    | ok p => exact ⟨_, hs.caches.setPoll hp, rfl⟩

private theorem serves_pollIds (guild : GuildId) :
    Serves (pollIds guild) (reading fun t => .ok (.ofList (t.pollIds guild))) := by
  refine .of_reading fun s hs => ?_
  simp only [pollIds, outcome_bind, outcome_get]
  cases hcached : s.caches.pollIds.get? guild with
  | some ids =>
    refine ⟨s.caches, hs.caches, ?_⟩
    rw [hs.caches.pollIds guild ids hcached]
    rfl
  | none =>
    refine ⟨_, hs.caches.setPollIds guild, ?_⟩
    simp only [outcome_bind, outcome_look, Database.read, hs.isOpen]
    rfl

theorem serves_lastEdit (key : PollKey) :
    Serves (lastEdit key) (reading fun t => t.latestEdit key) := by
  refine ((Serves.look _).bind fun stamp => .of_except (PollEdit.ofStamp stamp)).congr fun t => ?_
  simp only [reading, Tables.latestEdit]
  cases t.stamp? key <;> rfl

private theorem serves_insert (key : PollKey) (p : Poll) (now : Instant) :
    Serves (insert key p now) (fun t => (t.create key p now).map ((), ·)) := by
  have hchange : Serves
      (StoreAction.change_ (·.insertPoll (p.under key) now.millis) >>= fun _ =>
        modifyCaches (·.forgetListed key))
      (fun t => ((t.insertPoll (p.under key) now.millis).mapError .ofStorage).map ((), ·)) := by
    refine .change_ fun h hc => ?_
    obtain ⟨hnew, rfl⟩ := Tables.insertPoll_eq_ok h
    refine hc.forgetListed rfl (fun guild hg => Tables.pollIds_withPoll _ _ _ hg) fun other ho => ?_
    rw [Tables.slice_withPoll _ _ _ hnew]
    exact if_neg ho
  refine ((Serves.orInvalid (p.under key).validate).bind fun _ => hchange).congr fun t => ?_
  simp only [Tables.create]
  cases (p.under key).validate <;> rfl

theorem serves_update (key : PollKey) (p : Poll) (now : Instant) :
    Serves (update key p now) (fun t => (t.revise key p now).map ((), ·)) := by
  have hchange : Serves
      (StoreAction.change_ (·.updatePoll key p.title p.description p.settings now.millis) >>=
        fun _ => modifyCaches (·.forgetPoll key))
      (fun t => ((t.updatePoll key p.title p.description p.settings now.millis).mapError
        .ofStorage).map ((), ·)) := by
    refine .change_ fun h hc => ?_
    obtain ⟨-, rfl⟩ := Tables.modifyRow?_eq_ok h
    have hkeeps := Tables.keepsKey_withDetails p.title p.description p.settings now.millis
    refine hc.forgetPoll rfl (Tables.keys_modifyRow hkeeps _ key) fun other ho => ?_
    rw [Tables.slice_modifyRow hkeeps]
    exact if_neg ho
  refine ((Serves.orInvalid p.validate).bind fun _ => hchange).congr fun t => ?_
  simp only [Tables.revise]
  cases p.validate <;> rfl

private theorem serves_edit (key : PollKey) (e : Edit) (now : Instant) :
    Serves (edit key e now) (fun t => t.amend key e now) := by
  refine ((serves_poll key).bind fun p => (Serves.orInvalid (p.apply e)).bind fun p =>
    (serves_update key p now).answer p).congr fun t => ?_
  simp only [Tables.amend]
  cases t.fetch key with
  | error _ => rfl
  | ok p => cases p.apply e <;> rfl

private theorem serves_cast (key : PollKey) (voter : UserId) (chosen : List ChoiceId) (now : Instant) :
    Serves (cast key voter chosen now)
      (fun t => (t.castAnswers key voter (.ofList chosen) now).map ((), ·)) := by
  have hchange : Serves
      (StoreAction.change_ (·.replaceAnswers key voter (IdSet.ofList chosen).toList now.millis) >>=
        fun _ => modifyCaches (·.forgetPoll key))
      (fun t => ((t.replaceAnswers key voter (IdSet.ofList chosen).toList now.millis).mapError
        .ofStorage).map ((), ·)) := by
    refine .change_ fun h hc => ?_
    have hothers := fun other (ho : other ≠ key) => Tables.slice_replaceAnswers h ho
    obtain ⟨added, rfl, -⟩ := Tables.replaceAnswers_eq_ok h
    refine hc.forgetPoll rfl ?_ hothers
    exact Tables.keys_modifyRow (f := fun r => { r with editedAt := now.millis }) (fun _ => rfl) _ key
  refine ((serves_poll key).bind (g := fun p t => do
    (p.checkSelection (IdSet.ofList chosen)).mapError fun r => .invalid (.ballot r)
    ((t.replaceAnswers key voter (IdSet.ofList chosen).toList now.millis).mapError
      .ofStorage).map ((), ·)) fun p => ?_).congr fun t => ?_
  · cases p.checkSelection (IdSet.ofList chosen) with
    | error r =>
      exact .of_reading (f := fun _ => .error (.invalid (.ballot r))) fun s hs =>
        ⟨s.caches, hs.caches, rfl⟩
    | ok _ => exact hchange
  · simp only [Tables.castAnswers]
    cases t.fetch key with
    | error _ => rfl
    | ok p =>
      have hfound : ∀ {γ : Type} (k : Poll → Except StoreError γ),
          ((.ok p : Except StorageError Poll).mapError .ofStorage >>= k) = k p := fun _ => rfl
      simp only [hfound]
      cases p.checkSelection (IdSet.ofList chosen) <;> rfl

/-- Every request within a guild reads and changes the tables as if there were no caches. -/
theorem serves_answerIn (guild : GuildId) (now : Instant) (r : GuildRequest) :
    Serves (answerIn guild now r) (fun t => t.serve guild now r) := by
  cases r with
  | settings =>
    refine ((serves_settings guild).map Answer.settings).congr fun t => ?_
    simp only [reading, Tables.serve]
    cases t.settingsOf guild <;> rfl
  | setSettings s =>
    exact (Serves.answer (f := fun t => .ok (t.putSettings (.ofSettings guild s)))
      (serves_setSettings guild s) Answer.done)
  | poll id =>
    refine ((serves_poll ⟨guild, id⟩).map Answer.poll).congr fun t => ?_
    simp only [reading, Tables.serve]
    cases t.fetch ⟨guild, id⟩ <;> rfl
  | insert id p => exact (serves_insert ⟨guild, id⟩ p now).answer Answer.done
  | update id p => exact (serves_update ⟨guild, id⟩ p now).answer Answer.done
  | edit id e => exact (serves_edit ⟨guild, id⟩ e now).map Answer.poll
  | cast id voter chosen => exact (serves_cast ⟨guild, id⟩ voter chosen now).answer Answer.done
  | pollIds => exact (serves_pollIds guild).map Answer.ids
  | lastEdit id =>
    refine ((serves_lastEdit ⟨guild, id⟩).map Answer.edit).congr fun t => ?_
    simp only [reading, Tables.serve]
    cases t.latestEdit ⟨guild, id⟩ <;> rfl

end Store

end PollKeeper
