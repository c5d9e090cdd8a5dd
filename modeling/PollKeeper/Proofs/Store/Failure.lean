import PollKeeper.Proofs.Storage.Transaction
import PollKeeper.Proofs.Store.Transparency

/-!
# Requests that fail

A request that fails has changed no table. All that it may leave behind is a poll that it has read on the
way, now in the cache as the tables give it; and this is never noticed, whatever the caches held before.
-/

namespace PollKeeper

open Time StoreAction

variable {α β : Type}

/-- An invalidation: it drops some polls, and the rest of it depends on nothing else in the caches. -/
structure Caches.Forgets (g : Caches → Caches) (dropped : PollKey → Prop) : Prop where
  settings : ∀ {c c' : Caches}, c'.settings = c.settings → (g c').settings = (g c).settings
  pollIds : ∀ {c c' : Caches}, c'.pollIds = c.pollIds → (g c').pollIds = (g c).pollIds
  gone : ∀ {key}, dropped key → ∀ c : Caches, (g c).polls.get? key = none
  kept : ∀ {key}, ¬ dropped key → ∀ c : Caches, (g c).polls.get? key = c.polls.get? key

namespace Caches

private theorem forgets_forgetSettings (guild : GuildId) :
    Forgets (·.forgetSettings guild) fun _ => False where
  settings h := congrArg (·.erase guild) h
  pollIds h := h
  gone h := h.elim
  kept _ _ := rfl

theorem forgets_forgetPoll (key : PollKey) : Forgets (·.forgetPoll key) (· = key) where
  settings h := h
  pollIds h := h
  gone h c := by simp [forgetPoll, h]
  kept h c := by simp [forgetPoll, h]

theorem forgets_forgetListed (key : PollKey) : Forgets (·.forgetListed key) (· = key) where
  settings h := h
  pollIds h := congrArg (·.erase key.guild) h
  gone h c := by simp [forgetListed, forgetPoll, h]
  kept h c := by simp [forgetListed, forgetPoll, h]

private theorem forgets_without (settings : List GuildId) (polls : List PollKey) (pollIds : List GuildId) :
    Forgets (·.without settings polls pollIds) (· ∈ polls) where
  settings h := congrArg (·.filter (·.1 ∉ settings)) h
  pollIds h := congrArg (·.filter (·.1 ∉ pollIds)) h
  gone h c := ((Keyed.get?_filter_key _ (· ∉ polls) _).trans (by simp [h]))
  kept h c := ((Keyed.get?_filter_key _ (· ∉ polls) _).trans (by simp [h]))

end Caches

namespace Store

/-- The same store, but that more polls may be cached, as the tables give them now. -/
structure Warms (s s' : Store) : Prop where
  database : s'.database = s.database
  locks : s'.locks = s.locks
  settings : s'.caches.settings = s.caches.settings
  pollIds : s'.caches.pollIds = s.caches.pollIds
  polls : ∀ key, s'.caches.polls.get? key = s.caches.polls.get? key ∨
    s.caches.polls.get? key = none ∧
      ∃ p, s'.caches.polls.get? key = some p ∧ s.database.read (·.fetch key) = .ok p

namespace Warms

variable {s s' u : Store}

theorem refl (s : Store) : s.Warms s := ⟨rfl, rfl, rfl, rfl, fun _ => .inl rfl⟩

theorem trans (h : s.Warms s') (h' : s'.Warms u) : s.Warms u where
  database := h'.database.trans h.database
  locks := h'.locks.trans h.locks
  settings := h'.settings.trans h.settings
  pollIds := h'.pollIds.trans h.pollIds
  polls key := by
    rcases h'.polls key with he | ⟨hnone, p, hp, hread⟩
    · rw [he]
      exact h.polls key
    · rcases h.polls key with ho | ⟨hold, q, hq, -⟩
      · exact .inr ⟨ho ▸ hnone, p, hp, h.database ▸ hread⟩
      · rw [hnone] at hq
        cases hq

theorem setPoll {key : PollKey} {p : Poll} (hnone : s.caches.polls.get? key = none)
    (hread : s.database.read (·.fetch key) = .ok p) :
    s.Warms { s with caches := { s.caches with polls := s.caches.polls.set key p } } where
  database := rfl
  locks := rfl
  settings := rfl
  pollIds := rfl
  polls other := by
    simp only [Keyed.get?_set]
    split
    · next he =>
      subst he
      exact .inr ⟨hnone, p, rfl, hread⟩
    · exact .inl rfl

private theorem fill (h : s.Warms s') {key : PollKey} {p : Poll} (hp : s'.caches.polls.get? key = some p) :
    ({ s with caches := { s.caches with polls := s.caches.polls.set key p } } : Store).Warms s' where
  database := h.database
  locks := h.locks
  settings := h.settings
  pollIds := h.pollIds
  polls other := by
    simp only [Keyed.get?_set]
    split
    · next he =>
      subst he
      exact .inl hp
    · exact h.polls other

theorem setPolls (h : s.Warms s') (key : PollKey) (p : Poll) :
    ({ s with caches := { s.caches with polls := s.caches.polls.set key p } } : Store).Warms
      { s' with caches := { s'.caches with polls := s'.caches.polls.set key p } } where
  database := h.database
  locks := h.locks
  settings := h.settings
  pollIds := h.pollIds
  polls other := by
    simp only [Keyed.get?_set]
    split
    · exact .inl rfl
    · exact h.polls other

theorem setLocks (h : s.Warms s') (locks : Locks) :
    ({ s with locks } : Store).Warms { s' with locks } :=
  ⟨h.database, rfl, h.settings, h.pollIds, h.polls⟩

theorem change (h : s.Warms s') {g : Caches → Caches} {dropped : PollKey → Prop}
    (hg : Caches.Forgets g dropped) {t : Tables}
    (ht : ∀ key, ¬ dropped key → t.fetch key = s.database.tables.fetch key) :
    ({ s with database := { s.database with tables := t }, caches := g s.caches } : Store).Warms
      { s' with database := { s'.database with tables := t }, caches := g s'.caches } where
  database := by rw [h.database]
  locks := h.locks
  settings := hg.settings h.settings
  pollIds := hg.pollIds h.pollIds
  polls key := by
    by_cases hd : dropped key
    · exact .inl ((hg.gone hd _).trans (hg.gone hd _).symm)
    · simp only [hg.kept hd, Database.read, ht key hd]
      exact h.polls key

theorem forget (h : s.Warms s') {g : Caches → Caches} {dropped : PollKey → Prop}
    (hg : Caches.Forgets g dropped) :
    ({ s with caches := g s.caches } : Store).Warms { s' with caches := g s'.caches } := by
  obtain ⟨database, caches, locks⟩ := s
  obtain ⟨_, caches', locks'⟩ := s'
  obtain rfl := h.database
  exact h.change hg fun _ _ => rfl

end Warms
end Store

def Peeks (a : StoreAction α) : Prop := ∀ s : Store, s.Warms (a.outcome s).2

/-- An action that at most puts polls into the cache if it fails. -/
def FailsSafe (a : StoreAction α) : Prop :=
  ∀ (s : Store) e, (a.outcome s).1 = .error e → s.Warms (a.outcome s).2

namespace FailsSafe

theorem of_peeks {a : StoreAction α} (ha : Peeks a) : FailsSafe a := fun s _ _ => ha s

theorem of_ok {a : StoreAction α} (h : ∀ s, ∃ x, (a.outcome s).1 = .ok x) : FailsSafe a := by
  intro s e he
  obtain ⟨x, hx⟩ := h s
  rw [hx] at he
  cases he

theorem bind {a : StoreAction α} {b : α → StoreAction β} (ha : Peeks a) (hb : ∀ x, FailsSafe (b x)) :
    FailsSafe (a >>= b) := by
  intro s e he
  have hwarms := ha s
  rw [outcome_bind] at he ⊢
  generalize a.outcome s = o at he hwarms ⊢
  obtain ⟨_ | x, u⟩ := o
  · exact hwarms
  · exact hwarms.trans (hb x u e he)

theorem then_ok {a : StoreAction α} {b : α → StoreAction β} (ha : FailsSafe a)
    (hb : ∀ x s, ∃ y, ((b x).outcome s).1 = .ok y) : FailsSafe (a >>= b) := by
  intro s e he
  have hfails := ha s
  rw [outcome_bind] at he ⊢
  generalize a.outcome s = o at he hfails ⊢
  obtain ⟨_ | x, u⟩ := o
  · exact hfails _ rfl
  · obtain ⟨y, hy⟩ := hb x u
    rw [hy] at he
    cases he

theorem map {a : StoreAction α} (ha : FailsSafe a) (f : α → β) : FailsSafe (f <$> a) := by
  rw [map_eq_pure_bind]
  exact ha.then_ok fun x s => ⟨f x, rfl⟩

theorem answer {a : StoreAction Unit} (ha : FailsSafe a) (x : β) : FailsSafe (a *> pure x) := by
  rw [seqRight_eq_bind]
  exact ha.then_ok fun _ s => ⟨x, rfl⟩

theorem change_ (f : Tables → Except StorageError Tables) : FailsSafe (StoreAction.change_ f) := by
  intro s e he
  rw [StoreAction.change_, outcome_change] at he ⊢
  obtain ⟨fault, hfault, -⟩ := mapError_eq_error he
  simp only [Database.write_of_error hfault]
  exact .refl s

theorem change_forget (f : Tables → Except StorageError Tables) (g : Caches → Caches) :
    FailsSafe (StoreAction.change_ f >>= fun _ => modifyCaches g) :=
  (change_ f).then_ok fun _ _ => ⟨(), rfl⟩

end FailsSafe

namespace Peeks

theorem of_result {a : StoreAction α} {r : Store → Except StoreError α}
    (h : ∀ s, a.outcome s = (r s, s)) : Peeks a := by
  intro s
  rw [h]
  exact .refl s

theorem look (f : Tables → Except StorageError α) : Peeks (StoreAction.look f) :=
  of_result (outcome_look f)

theorem orInvalid (r : Except PollError α) : Peeks (StoreAction.orInvalid r) :=
  of_result (outcome_orInvalid r)

theorem of_except (r : Except StoreError α) : Peeks (liftExcept r : StoreAction α) :=
  of_result (outcome_liftExcept r)

end Peeks

namespace Store

/-- Reads a poll, from the cache if it is there. -/
theorem outcome_poll (key : PollKey) (s : Store) :
    (poll key).outcome s = match s.caches.polls.get? key with
      | some p => (.ok p, s)
      | none => match s.database.read (·.fetch key) with
        | .ok p => (.ok p, { s with caches := { s.caches with polls := s.caches.polls.set key p } })
        | .error e => (.error (.ofStorage e), s) := by
  simp only [poll, outcome_bind, outcome_get]
  cases s.caches.polls.get? key with
  | some p => rfl
  | none =>
    simp only [outcome_bind, outcome_look]
    cases s.database.read (·.fetch key) <;> rfl

theorem peeks_poll (key : PollKey) : Peeks (poll key) := by
  intro s
  rw [outcome_poll]
  cases hcached : s.caches.polls.get? key with
  | some p => exact .refl s
  | none =>
    dsimp only
    cases hread : s.database.read (·.fetch key) with
    | error e => exact .refl s
    | ok p => exact .setPoll hcached hread

private theorem failsSafe_settings (guild : GuildId) : FailsSafe (settings guild) := by
  refine .bind (.of_result fun s => outcome_get s) fun s => ?_
  cases s.caches.settings.get? guild with
  | some v => exact .of_ok fun _ => ⟨v, rfl⟩
  | none => exact .bind (.look _) fun v => .of_ok fun _ => ⟨v, rfl⟩

private theorem failsSafe_pollIds (guild : GuildId) : FailsSafe (pollIds guild) := by
  refine .bind (.of_result fun s => outcome_get s) fun s => ?_
  cases s.caches.pollIds.get? guild with
  | some ids => exact .of_ok fun _ => ⟨ids, rfl⟩
  | none => exact .bind (.look _) fun ids => .of_ok fun _ => ⟨ids, rfl⟩

private theorem failsSafe_update (key : PollKey) (p : Poll) (now : Instant) :
    FailsSafe (update key p now) :=
  .bind (.orInvalid _) fun _ => .change_forget _ _

private theorem failsSafe_cast (key : PollKey) (voter : UserId) (chosen : List ChoiceId) (now : Instant) :
    FailsSafe (cast key voter chosen now) := by
  refine .bind (peeks_poll key) fun p => ?_
  cases p.checkSelection (.ofList chosen) with
  | error r => exact .of_peeks fun s => .refl s
  | ok _ => exact .change_forget _ _

/-- A request within a guild that fails leaves the tables and the locks as they were. -/
theorem failsSafe_answerIn (guild : GuildId) (now : Instant) (r : GuildRequest) :
    FailsSafe (answerIn guild now r) := by
  cases r with
  | settings => exact (failsSafe_settings guild).map _
  | setSettings s => exact (FailsSafe.change_forget _ _).answer _
  | poll id => exact (FailsSafe.of_peeks (peeks_poll _)).map _
  | insert id p => exact (FailsSafe.bind (.orInvalid _) fun _ => .change_forget _ _).answer _
  | update id p => exact (failsSafe_update _ p now).answer _
  | edit id e =>
    exact (FailsSafe.bind (peeks_poll _) fun p => .bind (.orInvalid _) fun p =>
      (failsSafe_update _ p now).then_ok fun _ _ => ⟨p, rfl⟩).map _
  | cast id voter chosen => exact (failsSafe_cast _ voter chosen now).answer _
  | pollIds => exact (failsSafe_pollIds guild).map _
  | lastEdit id => exact (FailsSafe.bind (.look _) fun _ => .of_peeks (.of_except _)).map _

private theorem failsSafe_answer (now : Instant) (h : Handle) (r : GuildRequest) :
    FailsSafe (answer now (.ofGuild h r)) :=
  .bind (.of_result (outcome_guildOf h)) fun guild => failsSafe_answerIn guild now r

end Store

/-- An action that answers alike on a store with more polls in its cache, and again leaves such a store. -/
def Blind (a : StoreAction α) : Prop :=
  ∀ s s' : Store, s.Warms s' →
    (a.outcome s').1 = (a.outcome s).1 ∧ (a.outcome s).2.Warms (a.outcome s').2

namespace Blind

theorem of_result {a : StoreAction α} {r : Except StoreError α} (h : ∀ s, a.outcome s = (r, s)) :
    Blind a := by
  intro s s' hs
  rw [h, h]
  exact ⟨rfl, hs⟩

theorem pure (x : α) : Blind (Pure.pure x : StoreAction α) := of_result fun _ => rfl

theorem bind {a : StoreAction α} {b : α → StoreAction β} (ha : Blind a) (hb : ∀ x, Blind (b x)) :
    Blind (a >>= b) := by
  intro s s' hs
  obtain ⟨hresult, hwarms⟩ := ha s s' hs
  rw [outcome_bind, outcome_bind]
  generalize a.outcome s = o at hresult hwarms
  generalize a.outcome s' = o' at hresult hwarms
  obtain ⟨result, u⟩ := o
  obtain ⟨result', u'⟩ := o'
  cases hresult
  cases result with
  | error e => exact ⟨rfl, hwarms⟩
  | ok x => exact hb x u u' hwarms

theorem map {a : StoreAction α} (ha : Blind a) (f : α → β) : Blind (f <$> a) := by
  rw [map_eq_pure_bind]
  exact ha.bind fun x => .pure (f x)

theorem answer {a : StoreAction Unit} (ha : Blind a) (x : β) : Blind (a *> Pure.pure x) := by
  rw [seqRight_eq_bind]
  exact ha.bind fun _ => .pure x

theorem orInvalid (r : Except PollError α) : Blind (StoreAction.orInvalid r) :=
  of_result fun s => outcome_orInvalid r s

theorem of_except (r : Except StoreError α) : Blind (liftExcept r : StoreAction α) :=
  of_result fun s => outcome_liftExcept r s

theorem look (f : Tables → Except StorageError α) : Blind (StoreAction.look f) := by
  intro s s' hs
  rw [outcome_look, outcome_look, hs.database]
  exact ⟨rfl, hs⟩

theorem modifyCaches {g : Caches → Caches} {dropped : PollKey → Prop} (hg : Caches.Forgets g dropped) :
    Blind (StoreAction.modifyCaches g) := fun _ _ hs => ⟨rfl, hs.forget hg⟩

theorem change_ {f : Tables → Except StorageError Tables} {g : Caches → Caches}
    {dropped : PollKey → Prop} (hg : Caches.Forgets g dropped)
    (hf : ∀ {t t' : Tables}, f t = .ok t' → ∀ key, ¬ dropped key → t'.fetch key = t.fetch key) :
    Blind (StoreAction.change_ f >>= fun _ => StoreAction.modifyCaches g) := by
  intro s s' hs
  have hwrite : ∀ u : Store, (StoreAction.change_ f).outcome u =
      match u.database.read f with
      | .ok t => (.ok (), { u with database := { u.database with tables := t } })
      | .error e => (.error (.ofStorage e), u) := by
    intro u
    rw [StoreAction.change_, outcome_change]
    cases hclosed : u.database.closed with
    | true => simp only [Database.write_eq_of_closed hclosed, Database.read, hclosed]; rfl
    | false =>
      simp only [Database.write_eq_of_open hclosed, Database.read, hclosed]
      cases f u.database.tables <;> rfl
  rw [outcome_bind, outcome_bind, hwrite, hwrite, hs.database]
  cases hread : s.database.read f with
  | error e => exact ⟨rfl, hs⟩
  | ok t =>
    simp only [Database.read] at hread
    split at hread
    · cases hread
    · have hchange := hs.change hg (hf hread)
      rw [hs.database] at hchange
      exact ⟨rfl, hchange⟩

end Blind

namespace Store

private theorem blind_settings (guild : GuildId) : Blind (settings guild) := by
  intro s s' hs
  simp only [settings, outcome_bind, outcome_get, hs.settings]
  cases s.caches.settings.get? guild with
  | some v => exact ⟨rfl, hs⟩
  | none =>
    have hset : ∀ v, Caches.Forgets (fun c => { c with settings := c.settings.set guild v })
        fun _ => False :=
      fun v => ⟨fun h => congrArg (·.set guild v) h, fun h => h, fun h => h.elim, fun _ _ => rfl⟩
    exact Blind.bind (.look (·.settingsOf guild)) (fun v => .bind (.modifyCaches (hset v)) fun _ =>
      .pure v) s s' hs

private theorem blind_pollIds (guild : GuildId) : Blind (pollIds guild) := by
  intro s s' hs
  simp only [pollIds, outcome_bind, outcome_get, hs.pollIds]
  cases s.caches.pollIds.get? guild with
  | some ids => exact ⟨rfl, hs⟩
  | none =>
    have hset : ∀ ids, Caches.Forgets (fun c => { c with pollIds := c.pollIds.set guild ids })
        fun _ => False :=
      fun ids => ⟨fun h => h, fun h => congrArg (·.set guild ids) h, fun h => h.elim, fun _ _ => rfl⟩
    exact Blind.bind (.look fun t => .ok (.ofList (t.pollIds guild))) (fun ids =>
      .bind (.modifyCaches (hset ids)) fun _ => .pure ids) s s' hs

theorem blind_poll (key : PollKey) : Blind (poll key) := by
  intro s s' hs
  rw [outcome_poll, outcome_poll]
  rcases hs.polls key with he | ⟨hnone, p, hp, hread⟩
  · rw [he]
    cases s.caches.polls.get? key with
    | some p => exact ⟨rfl, hs⟩
    | none =>
      dsimp only
      rw [hs.database]
      cases s.database.read (·.fetch key) with
      | error e => exact ⟨rfl, hs⟩
      | ok p =>
        have hset := hs.setPolls key p
        rw [hs.database] at hset
        exact ⟨rfl, hset⟩
  · rw [hnone, hp]
    dsimp only
    rw [hread]
    exact ⟨rfl, hs.fill hp⟩

private theorem blind_setSettings (guild : GuildId) (s : Settings) : Blind (setSettings guild s) :=
  .change_ (Caches.forgets_forgetSettings guild) fun h _ _ => by cases h; rfl

private theorem blind_insert (key : PollKey) (p : Poll) (now : Instant) : Blind (insert key p now) :=
  .bind (.orInvalid _) fun _ => .change_ (Caches.forgets_forgetListed key) fun {t _} h other ho => by
    obtain ⟨hnew, rfl⟩ := Tables.insertPoll_eq_ok h
    exact Tables.fetch_congr (Tables.poll?_congr
      ((Tables.slice_withPoll t (p.under key) now.millis hnew).trans (if_neg ho)))

private theorem blind_update (key : PollKey) (p : Poll) (now : Instant) : Blind (update key p now) :=
  .bind (.orInvalid _) fun _ => .change_ (Caches.forgets_forgetPoll key) fun {t _} h other ho => by
    obtain ⟨-, rfl⟩ := Tables.modifyRow?_eq_ok h
    have hkeeps := Tables.keepsKey_withDetails p.title p.description p.settings now.millis
    exact Tables.fetch_congr (Tables.poll?_congr ((Tables.slice_modifyRow hkeeps t key other).trans
      (if_neg ho)))

private theorem blind_cast (key : PollKey) (voter : UserId) (chosen : List ChoiceId) (now : Instant) :
    Blind (cast key voter chosen now) := by
  refine .bind (blind_poll key) fun p => ?_
  cases p.checkSelection (.ofList chosen) with
  | error r => exact .of_result fun _ => rfl
  | ok _ =>
    exact .change_ (Caches.forgets_forgetPoll key) fun h _ ho =>
      Tables.fetch_congr (Tables.poll?_congr (Tables.slice_replaceAnswers h ho))

private theorem blind_answerIn (guild : GuildId) (now : Instant) (r : GuildRequest) :
    Blind (answerIn guild now r) := by
  cases r with
  | settings => exact (blind_settings guild).map _
  | setSettings s => exact (blind_setSettings guild s).answer _
  | poll id => exact (blind_poll _).map _
  | insert id p => exact (blind_insert _ p now).answer _
  | update id p => exact (blind_update _ p now).answer _
  | edit id e =>
    exact (Blind.bind (blind_poll _) fun p => .bind (.orInvalid _) fun p =>
      .bind (blind_update _ p now) fun _ => .pure p).map _
  | cast id voter chosen => exact (blind_cast _ voter chosen now).answer _
  | pollIds => exact (blind_pollIds guild).map _
  | lastEdit id => exact (Blind.bind (.look _) fun _ => .of_except _).map _

theorem outcome_count (f : Tables → α × Tables) (s : Store) :
    (StoreAction.count f).outcome s =
      if s.database.closed then (.error (.unavailable .closed), s)
      else
        (.ok (f s.database.tables).1,
          { s with database := { s.database with tables := (f s.database.tables).2 } }) := by
  rw [StoreAction.count, outcome_change]
  cases hclosed : s.database.closed with
  | true =>
    rw [Database.write_eq_of_closed hclosed]
    rfl
  | false =>
    rw [Database.write_eq_of_open hclosed]
    rfl

private theorem blind_count {f : Tables → α × Tables} (hf : ∀ t : Tables, t.SameContent (f t).2) :
    Blind (StoreAction.count f) := by
  intro s s' hs
  have hchange := hs.change (g := id) ⟨id, id, False.elim, fun _ _ => rfl⟩ fun key _ =>
    Tables.fetch_congr ((hf s.database.tables).poll? key)
  rw [outcome_count, outcome_count]
  simp only [hs.database] at hchange ⊢
  split
  · exact ⟨rfl, hs⟩
  · exact ⟨rfl, hchange⟩

private theorem outcome_deleteEnded (cutoff : Int) (key : PollKey) (s : Store) :
    (deleteEnded cutoff key).outcome s =
      if s.database.closed then (.error (.unavailable .closed), s)
      else if (s.database.tables.row? key).any (·.endedBefore cutoff) then
        (.ok true,
          { s with
            database := { s.database with tables := s.database.tables.removePoll key }
            caches := s.caches.forgetListed key })
      else (.ok false, s) := by
  rw [deleteEnded, outcome_bind, outcome_count, Tables.removeEnded_eq]
  cases s.database.closed with
  | true => rfl
  | false => cases (s.database.tables.row? key).any (·.endedBefore cutoff) <;> rfl

private theorem blind_deleteEnded (cutoff : Int) (key : PollKey) : Blind (deleteEnded cutoff key) := by
  intro s s' hs
  have hchange := hs.change (Caches.forgets_forgetListed key) (t := s.database.tables.removePoll key)
    fun other ho => Tables.fetch_congr (Tables.poll?_congr
      ((Tables.slice_removePoll s.database.tables key other).trans (if_neg ho)))
  rw [outcome_deleteEnded, outcome_deleteEnded]
  simp only [hs.database] at hchange ⊢
  split
  · exact ⟨rfl, hs⟩
  · split
    · exact ⟨rfl, hchange⟩
    · exact ⟨rfl, hs⟩

private theorem blind_mapM {f : α → StoreAction β} (hf : ∀ x, Blind (f x)) (xs : List α) :
    Blind (xs.mapM f) := by
  induction xs with
  | nil => exact .pure []
  | cons first rest ih =>
    rw [List.mapM_cons]
    exact (hf first).bind fun y => ih.bind fun ys => .pure (y :: ys)

private theorem blind_deleteEndedOf (cutoff : Int) (guild : GuildId) (keys : List PollKey) :
    Blind (deleteEndedOf cutoff guild keys) := by
  intro s s' hs
  simp only [deleteEndedOf, outcome_bind, outcome_get, outcome_modify, hs.locks]
  obtain ⟨result, locks⟩ := s.locks.acquire guild
  have hlocked := hs.setLocks locks
  cases result with
  | error e => exact ⟨rfl, hlocked⟩
  | ok h =>
    obtain ⟨hresult, hleft⟩ := (blind_mapM (blind_deleteEnded cutoff) keys).bind
      (fun deleted => .pure (deleted.count true)) _ _ hlocked
    simp only [outcome_thenRelease, hleft.locks]
    exact ⟨hresult, hleft.setLocks _⟩

private theorem blind_foldlM {f : β → α → StoreAction β} (hf : ∀ y x, Blind (f y x)) (xs : List α) (y : β) :
    Blind (xs.foldlM f y) := by
  induction xs generalizing y with
  | nil => exact .pure y
  | cons first rest ih =>
    rw [List.foldlM_cons]
    exact (hf y first).bind ih

private theorem blind_deleteExpired (before : Instant) : Blind (deleteExpired before) := by
  refine .bind (.look _) fun keys => .bind (blind_foldlM (fun n group => ?_) _ 0) fun n => ?_
  · exact (blind_deleteEndedOf _ group.1 group.2).bind fun m => .pure (n + m)
  · refine Blind.bind (fun s s' hs => ?_) fun _ => .pure n
    rw [outcome_modify, outcome_modify, hs.locks]
    exact ⟨rfl, hs.setLocks _⟩

private theorem blind_answer (now : Instant) (r : Request) : Blind (answer now r) := by
  cases r with
  | ofGuild h r =>
    refine .bind (fun s s' hs => ?_) fun guild => blind_answerIn guild now r
    rw [outcome_guildOf, outcome_guildOf, hs.locks]
    exact ⟨rfl, hs⟩
  | deleteExpired before => exact (blind_deleteExpired before).map _
  | endedUnrefreshed t => exact (Blind.look _).map _
  | markFinal keys =>
    refine Blind.map ?_ _
    rw [markFinal]
    split
    · exact .pure 0
    · exact blind_count fun t => t.sameContent_markFinal keys
  | editedSince cutoff => exact (Blind.bind (.look _) fun _ => .of_except _).map _
  | markSeen edits =>
    refine Blind.map ?_ _
    rw [markSeen]
    split
    · exact .pure 0
    · exact blind_count fun t => t.sameContent_markSeen _
  | persist keys =>
    refine Blind.map ?_ _
    rw [persist]
    split
    · exact .pure 0
    · exact blind_count fun t => t.sameContent_savePending keys
  | takePersisted guild => exact (blind_count fun t => t.sameContent_pending _).map _
  | clearCaches =>
    have hall : Caches.Forgets (fun _ => .empty) fun _ => True :=
      ⟨fun _ => rfl, fun _ => rfl, fun _ _ => rfl, fun h => absurd trivial h⟩
    exact (Blind.modifyCaches hall).answer _

private theorem blind_obtain (f : Locks → Except LockFailure Handle × Locks) : Blind (obtain f) := by
  intro s s' hs
  rw [outcome_obtain, outcome_obtain, hs.locks]
  exact ⟨rfl, hs.setLocks _⟩

/-- Polls that were cached in advance change no reply, and in the end they still do not. -/
theorem Warms.react {s s' : Store} (hs : s.Warms s') (e : StoreEvent) :
    (s'.react e).1 = (s.react e).1 ∧ (s.react e).2.Warms (s'.react e).2 := by
  cases e with
  | acquire guild =>
    obtain ⟨hresult, hwarms⟩ := blind_obtain (·.acquire guild) s s' hs
    exact ⟨congrArg StoreReply.handle hresult, hwarms⟩
  | acquireUnless cancelled guild =>
    obtain ⟨hresult, hwarms⟩ := blind_obtain (·.acquireUnless cancelled guild) s s' hs
    exact ⟨congrArg StoreReply.handle hresult, hwarms⟩
  | wait guild =>
    refine ⟨by simp only [Store.react, hs.locks], ?_⟩
    simp only [Store.react, hs.locks]
    exact hs.setLocks _
  | giveUp h =>
    refine ⟨rfl, ?_⟩
    simp only [Store.react, hs.locks]
    exact hs.setLocks _
  | release h =>
    refine ⟨rfl, ?_⟩
    simp only [Store.react, hs.locks]
    exact hs.setLocks _
  | request now r =>
    obtain ⟨hresult, hwarms⟩ := blind_answer now r s s' hs
    exact ⟨congrArg StoreReply.answer hresult, hwarms⟩
  | evict settings polls pollIds =>
    exact ⟨rfl, hs.forget (Caches.forgets_without settings polls pollIds)⟩

private theorem Warms.replies {s s' : Store} (hs : s.Warms s') (events : List StoreEvent) :
    s'.replies events = s.replies events := by
  induction events generalizing s s' with
  | nil => rfl
  | cons e rest ih =>
    obtain ⟨hreply, hleft⟩ := hs.react e
    rw [Store.replies, Store.replies, hreply, ih hleft]

/-- A change of the database that fails leaves every table as it was, and if each answer is for a stored
option, the faults are just those in its way. A request within a guild that fails, on any store, leaves
the tables and the locks as they were, and every later event is replied to as without it. -/
theorem failures_leave_no_trace :
    (∀ (d : Database) (c : PollChange) (editedAt : Int),
      (∀ e, (d.perform (c.script editedAt)).1 = .error e → (d.perform (c.script editedAt)).2 = d) ∧
      (d.tables.Anchored →
        d.perform (c.script editedAt) = d.write (fun t => (c.apply editedAt t).map ((), ·)) ∧
        (d.closed = false → ∀ e,
          (d.perform (c.script editedAt)).1 = .error e ↔ c.fault? d.tables = some e))) ∧
    ∀ (s : Store) (now : Instant) (h : Handle) (r : GuildRequest) (e : StoreError),
      ((answer now (.ofGuild h r)).outcome s).1 = .error e →
        ((answer now (.ofGuild h r)).outcome s).2.database = s.database ∧
        ((answer now (.ofGuild h r)).outcome s).2.locks = s.locks ∧
        ∀ events, ((answer now (.ofGuild h r)).outcome s).2.replies events = s.replies events := by
  constructor
  · intro d c editedAt
    exact ⟨fun e => PollChange.perform_of_error, fun hd => ⟨Database.perform_eq_write hd c editedAt,
      fun hopen e => Database.perform_eq_error_iff hopen hd⟩⟩
  · intro s now h r e herror
    have hwarms := failsSafe_answer now h r s e herror
    exact ⟨hwarms.database, hwarms.locks, hwarms.replies⟩

def onlyHere : Store :=
  fresh.after [.acquire 1,
    .request .earliest (.ofGuild ⟨1, 0⟩ (.insert 7 { Poll.lunch with choices := [⟨1, "Here", .empty⟩] }))]

def castElsewhere : Except StoreError Answer × Store :=
  (answer .earliest (.ofGuild ⟨1, 0⟩ (.cast 7 5 [9]))).outcome onlyHere

/-- An insertion fails at its second option, and a cast fails when it has read the poll. -/
theorem failures_leave_no_trace_of_lunch :
    let twice := { Poll.lunch with id := 8, choices := [⟨1, "Here", .empty⟩, ⟨1, "There", .empty⟩] }
    let d := onlyHere.database
    let inserted := d.perform ((PollChange.insert twice).script 0)
    (d.tables.Anchored ∧ d.closed = false ∧
        (PollChange.insert twice).fault? d.tables = some (.engine .repeatedOption)) ∧
      (inserted.1 = .error (.engine .repeatedOption) ∧ inserted.2 = d) ∧
      castElsewhere.1 = .error (.invalid (.ballot (.unknownOption 9))) ∧ castElsewhere.2.database = d ∧
      ∀ events, castElsewhere.2.replies events = onlyHere.replies events := by
  intro twice d inserted
  obtain ⟨hanswers, hopen, hfault, hrejected⟩ : d.tables.answers.length = 0 ∧ d.closed = false ∧
      (PollChange.insert twice).fault? d.tables = some (.engine .repeatedOption) ∧
      castElsewhere.1.map (fun _ => ()) = .error (.invalid (.ballot (.unknownOption 9))) := by
    decide +kernel
  have hanchored : d.tables.Anchored := by
    rw [Tables.Anchored, List.eq_nil_of_length_eq_zero hanswers]
    exact nofun
  have hcast : castElsewhere.1 = .error (.invalid (.ballot (.unknownOption 9))) := by
    generalize castElsewhere.1 = result at hrejected ⊢
    cases result with
    | ok _ => cases hrejected
    | error e => exact congrArg _ (Except.error.inj hrejected)
  obtain ⟨hchanges, hrequests⟩ := failures_leave_no_trace
  obtain ⟨hkept, hfaults⟩ := hchanges d (.insert twice) 0
  have hinserted := ((hfaults hanchored).2 hopen _).mpr hfault
  have hlater := hrequests onlyHere .earliest ⟨1, 0⟩ (.cast 7 5 [9]) (.invalid (.ballot (.unknownOption 9)))
  rw [← castElsewhere] at hlater
  obtain ⟨hdatabase, -, hreplies⟩ := hlater hcast
  exact ⟨⟨hanchored, hopen, hfault⟩, ⟨hinserted, hkept _ hinserted⟩, hcast, hdatabase, hreplies⟩

end Store

end PollKeeper
