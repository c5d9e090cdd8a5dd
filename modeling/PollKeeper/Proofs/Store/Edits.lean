import PollKeeper.Proofs.Store.RoundTrip

/-!
# Edits change what they name

An edit is computed on the poll that is read, and stored by writing three columns of one row. Both come to
the same: the poll with the values that were given in place of the old ones. Giving a stored poll the text
and the settings of any other one is the edit that names all three.
-/

namespace PollKeeper

open Time

namespace Tables

variable {t : Tables} {guild : GuildId} {id : PollId} {key : PollKey} {p q : Poll} {e : Edit}

def withDetailsOf (t : Tables) (key : PollKey) (p : Poll) (now : Instant) : Tables :=
  t.modifyRow key (·.withDetails p.title p.description p.settings now.millis)

theorem isSome_row? (hq : (t.slice key).Denotes key (some q)) : (t.row? key).isSome := by
  obtain ⟨r, hr, -⟩ := Option.map_eq_some_iff.mp hq.2.row
  exact Option.isSome_of_eq_some hr

theorem revise_eq (hvalid : p.validate = .ok ()) (now : Instant) :
    t.revise key p now =
      if (t.row? key).isSome then .ok (t.withDetailsOf key p now) else .error .notFound := by
  simp only [revise, hvalid, updatePoll, modifyRow?]
  split <;> rfl

theorem serve_update (hvalid : p.validate = .ok ()) (now : Instant) :
    t.serve guild now (.update id p) =
      if (t.row? ⟨guild, id⟩).isSome then .ok (.done, t.withDetailsOf ⟨guild, id⟩ p now)
      else .error .notFound := by
  rw [serve, revise_eq hvalid]
  split <;> rfl

/-- A stored poll is edited, unless the edited poll would not be valid. -/
theorem serve_edit (hq : (t.slice ⟨guild, id⟩).Denotes ⟨guild, id⟩ (some q)) (e : Edit) (now : Instant) :
    t.serve guild now (.edit id e) =
      match (q.edited e).validate with
      | .ok () => .ok (.poll (q.edited e), t.withDetailsOf ⟨guild, id⟩ (q.edited e) now)
      | .error fault => .error (.invalid (.poll fault)) := by
  have hread : t.amend ⟨guild, id⟩ e now = (do
      let p ← (q.apply e).mapError fun e => .invalid (.poll e)
      pure (p, ← t.revise ⟨guild, id⟩ p now)) := by
    rw [amend, fetch_of_denotes hq]
    rfl
  rw [serve, hread, Poll.apply]
  cases hvalid : (q.edited e).validate with
  | error fault => rfl
  | ok _ =>
    have hrevise : t.revise ⟨guild, id⟩ (q.edited e) now =
        .ok (t.withDetailsOf ⟨guild, id⟩ (q.edited e) now) :=
      (revise_eq hvalid now).trans (if_pos (isSome_row? hq))
    simp only [Except.map, Except.mapError, bind, Except.bind, hrevise]
    rfl

/-- No edit finds a poll that is not stored. -/
theorem serve_edit_of_none (ho : (t.slice ⟨guild, id⟩).Denotes ⟨guild, id⟩ none) (e : Edit) (now : Instant) :
    t.serve guild now (.edit id e) = .error .notFound := by
  rw [serve, amend, fetch, poll?_of_denotes ho]
  rfl

end Tables

namespace Store

variable {s : Store} {h : Handle} {id : PollId} {key : PollKey} {p q : Poll} {e : Edit}

/-- The poll is stored so, and whoever holds the lock of its guild reads it so. -/
def Shows (s : Store) (key : PollKey) (p : Poll) : Prop :=
  s.database.tables.fetch key = .ok p ∧
    ∀ reader moment, s.locks.isHeld reader → reader.guild = key.guild →
      (s.react (.request moment (.ofGuild reader (.poll key.poll)))).1 = .answer (.ok (.poll p))

theorem shows_of_denotes (hs : s.Coherent) (hq : (s.database.tables.slice key).Denotes key (some q)) :
    s.Shows key q :=
  ⟨Tables.fetch_of_denotes hq, fun _ moment hheld hguild => answer_poll hs hq hheld hguild moment⟩

theorem Shows.unique (hp : s.Shows key p) (hq : s.Shows key q) : p = q :=
  Except.ok.inj (hp.1.symm.trans hq.1)

/-- An edit that leaves a valid poll answers with that poll and changes nothing else. As long as the poll is
left alone, it is read as it was answered. -/
theorem react_edit (hs : s.InOrder) (hheld : s.locks.isHeld h)
    (hq : (s.database.tables.slice ⟨h.guild, id⟩).Denotes ⟨h.guild, id⟩ (some q))
    (hvalid : (q.edited e).validate = .ok ()) (now : Instant) :
    let editing := s.react (.request now (.ofGuild h (.edit id e)))
    editing.1 = .answer (.ok (.poll (q.edited e))) ∧
      (∀ other ≠ ⟨h.guild, id⟩, editing.2.database.tables.slice other = s.database.tables.slice other) ∧
      editing.2.database.tables.settings = s.database.tables.settings ∧
      ∀ events, editing.2.Untouched ⟨h.guild, id⟩ events →
        (editing.2.after events).Shows ⟨h.guild, id⟩ (q.edited e) := by
  intro editing
  have hserve := Tables.serve_edit hq e now
  rw [hvalid] at hserve
  have hediting := react_of_isHeld hs.coherent hheld now (.edit id e)
  rw [hserve] at hediting
  have htables : editing.2.database.tables =
      s.database.tables.withDetailsOf ⟨h.guild, id⟩ (q.edited e) now := congrArg DirectStore.tables hediting.2
  refine ⟨hediting.1, fun other hother => ?_, ?_, fun events hevents => ?_⟩
  · rw [htables]
    exact (Tables.changes_serve hserve).others other hother
  · rw [htables]
    rfl
  · have hdenotes : (editing.2.database.tables.slice ⟨h.guild, id⟩).Denotes ⟨h.guild, id⟩
        (some (q.edited e)) := htables ▸ Tables.denotes_serve hq rfl hserve
    have hinOrder : editing.2.InOrder := hs.react _
    exact shows_of_denotes (hinOrder.coherent.after events) (denotes_after hinOrder hdenotes hevents)

/-- An update with a valid poll leaves what the edit with its text and settings leaves. -/
theorem react_update (hs : s.InOrder) (hheld : s.locks.isHeld h)
    (hq : (s.database.tables.slice ⟨h.guild, id⟩).Denotes ⟨h.guild, id⟩ (some q))
    (hvalid : p.validate = .ok ()) (now : Instant) :
    let updating := s.react (.request now (.ofGuild h (.update id p)))
    let naming := s.react (.request now (.ofGuild h (.edit id ⟨p.title, p.description, p.settings⟩)))
    updating.1 = .answer (.ok .done) ∧ naming.1 = .answer (.ok (.poll (q.revised p))) ∧
      updating.2.direct = naming.2.direct := by
  have hrevised : (q.edited ⟨p.title, p.description, p.settings⟩).validate = .ok () :=
    Poll.validate_eq_ok_iff.mpr (hq.2.valid.revised (Poll.validate_eq_ok_iff.mp hvalid))
  have hupdating := react_of_isHeld hs.coherent hheld now (.update id p)
  have hnaming := react_of_isHeld hs.coherent hheld now (.edit id ⟨p.title, p.description, p.settings⟩)
  rw [Tables.serve_update hvalid, if_pos (Tables.isSome_row? hq)] at hupdating
  rw [Tables.serve_edit hq, hrevised] at hnaming
  exact ⟨hupdating.1, hnaming.1, hupdating.2.trans hnaming.2.symm⟩

/-- For every store in a run, every holder of a lock and every edit: A poll that is stored becomes the poll
that has the given values in place of its own, if that one is valid; the others stay, and as long as the poll
is left alone afterwards, it is read just so. Otherwise the edit is refused for that poll's fault. An update
with a valid poll does what the edit with its text and settings does, whatever else that poll carries.
Neither finds a poll that is not stored. -/
theorem edit_changes_what_it_names (before : List StoreEvent) (h : Handle) (id : PollId) (e : Edit)
    (now : Instant) (hheld : (fresh.after before).locks.isHeld h) :
    let s := fresh.after before
    let key : PollKey := ⟨h.guild, id⟩
    let ask r := s.react (.request now (.ofGuild h r))
    let editing := ask (.edit id e)
    if (s.database.tables.row? key).isSome then
      ∃ q, s.Shows key q ∧
        let v : Poll := { q with
          title := e.title.getD q.title
          description := e.description.getD q.description
          settings := e.settings.getD q.settings }
        (match v.validate with
          | .ok () => editing.1 = .answer (.ok (.poll v)) ∧
              (∀ other ≠ key, editing.2.database.tables.slice other = s.database.tables.slice other) ∧
              editing.2.database.tables.settings = s.database.tables.settings ∧
              ∀ events, editing.2.Untouched key events → (editing.2.after events).Shows key v
          | .error fault => editing.1 = .answer (.error (.invalid (.poll fault))) ∧
              editing.2.database.tables = s.database.tables) ∧
        ∀ w : Poll, w.validate = .ok () →
          let updating := ask (.update id w)
          let naming := ask (.edit id ⟨w.title, w.description, w.settings⟩)
          updating.1 = .answer (.ok .done) ∧
            naming.1 = .answer (.ok (.poll { q with
              title := w.title, description := w.description, settings := w.settings })) ∧
            updating.2.database.tables = naming.2.database.tables ∧
            ∀ events, updating.2.replies events = naming.2.replies events
    else
      editing.1 = .answer (.error .notFound) ∧ editing.2.database.tables = s.database.tables ∧
        ∀ w : Poll, w.validate = .ok () →
          (ask (.update id w)).1 = .answer (.error .notFound) ∧
            (ask (.update id w)).2.database.tables = s.database.tables := by
  intro s key ask editing
  have hs : s.InOrder := inOrder_after before
  obtain ⟨o, ho⟩ := hs.sound key
  have hediting := react_of_isHeld hs.coherent hheld now (.edit id e)
  split
  · next hstored =>
    obtain ⟨r, hr⟩ := Option.isSome_iff_exists.mp hstored
    obtain ⟨q, rfl⟩ := ho.isSome hr
    refine ⟨q, shows_of_denotes hs.coherent ho, ?_, fun w hw => ?_⟩
    · change match (q.edited e).validate with | .ok () => _ | .error fault => _
      cases hvalid : (q.edited e).validate with
      | ok _ => exact react_edit hs hheld ho hvalid now
      | error fault =>
        rw [Tables.serve_edit ho, hvalid] at hediting
        exact ⟨hediting.1, congrArg DirectStore.tables hediting.2⟩
    · obtain ⟨hupdating, hnaming, hsame⟩ := react_update hs hheld ho hw now
      exact ⟨hupdating, hnaming, congrArg DirectStore.tables hsame,
        replies_congr (hs.react _).coherent (hs.react _).coherent hsame⟩
  · next hstored =>
    obtain rfl := ho.eq_none (Option.not_isSome_iff_eq_none.mp hstored)
    rw [Tables.serve_edit_of_none ho] at hediting
    refine ⟨hediting.1, congrArg DirectStore.tables hediting.2, fun w hw => ?_⟩
    have hupdating := react_of_isHeld hs.coherent hheld now (.update id w)
    rw [Tables.serve_update hw, if_neg hstored] at hupdating
    exact ⟨hupdating.1, congrArg DirectStore.tables hupdating.2⟩

theorem denotes_inserting (hvalid : p.validate = .ok ()) (hkey : p.key = ⟨1, 7⟩) :
    ((fresh.after (inserting p)).database.tables.slice ⟨1, 7⟩).Denotes ⟨1, 7⟩ (some p) := by
  have hunder : p.under ⟨1, 7⟩ = p := by
    rw [← hkey]
    rfl
  let holder : Handle := ⟨1, 0⟩
  have hserve : (fresh.after [.acquire 1]).database.tables.serve holder.guild .earliest (.insert 7 p) =
      .ok (.done, Tables.empty.withPoll p Instant.earliest.millis) := by
    change Tables.empty.serve 1 .earliest (.insert 7 p) = _
    rw [Tables.serve, Tables.create_eq Tables.sound_empty (hunder.symm ▸ hvalid), hunder]
    rfl
  have hinserting := react_of_isHeld (coherent_after [.acquire 1]) (h := holder) rfl .earliest (.insert 7 p)
  rw [hserve] at hinserting
  have htables : (fresh.after (inserting p)).database.tables =
      Tables.empty.withPoll p Instant.earliest.millis := congrArg DirectStore.tables hinserting.2
  have hstores := Tables.stores_withPoll (t := .empty) (PollSlice.denotes_nothing p.key)
    (Poll.validate_eq_ok_iff.mp hvalid) Instant.earliest.millis
  rw [htables]
  exact ⟨hkey, hkey ▸ hstores⟩

/-- A poll gets another title, and is read so after the caches were cleared. Then it gets the text and
settings of a poll that has another key, channel and options. -/
theorem edit_changes_what_it_names_of_lunch :
    let s := fresh.after (inserting .lunch)
    let ask r := s.react (.request .latest (.ofGuild ⟨1, 0⟩ r))
    let editing := ask (.edit 7 ⟨some "Supper", none, none⟩)
    let supper : Poll := { Poll.lunch with title := "Supper" }
    let other : Poll := { dinner with id := 99, guild := 4, channel := 8 }
    editing.1 = .answer (.ok (.poll supper)) ∧
      (editing.2.after [.request .latest .clearCaches]).Shows ⟨1, 7⟩ supper ∧
      (ask (.update 7 other)).1 = .answer (.ok .done) ∧
      (ask (.edit 7 ⟨some "Dinner", some "Where to?", some .standard⟩)).1 =
        .answer (.ok (.poll { Poll.lunch with title := "Dinner" })) ∧
      (ask (.edit 8 ⟨some "Supper", none, none⟩)).1 = .answer (.error .notFound) := by
  have hheld : (fresh.after (inserting .lunch)).locks.isHeld ⟨1, 0⟩ = true := by decide
  have hstored : ((fresh.after (inserting .lunch)).database.tables.row? ⟨1, 7⟩).isSome := by decide +kernel
  have hfree : ¬ ((fresh.after (inserting .lunch)).database.tables.row? ⟨1, 8⟩).isSome := by decide +kernel
  have hlunch := edit_changes_what_it_names (inserting .lunch) ⟨1, 0⟩ 7 ⟨some "Supper", none, none⟩ .latest
    hheld
  have hnone := edit_changes_what_it_names (inserting .lunch) ⟨1, 0⟩ 8 ⟨some "Supper", none, none⟩ .latest
    hheld
  rw [if_pos hstored] at hlunch
  rw [if_neg hfree] at hnone
  obtain ⟨q, hq, hediting, hupdating⟩ := hlunch
  obtain rfl := hq.unique (shows_of_denotes (coherent_after _) (denotes_inserting rfl rfl))
  obtain ⟨hreply, -, -, hread⟩ := hediting
  obtain ⟨hdone, hnaming, -⟩ := hupdating { dinner with id := 99, guild := 4, channel := 8 } rfl
  exact ⟨hreply, hread [.request .latest .clearCaches] ⟨nofun, trivial⟩, hdone, hnaming, hnone.1⟩

end Store
end PollKeeper
