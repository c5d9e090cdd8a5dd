import PollKeeper.Proofs.Store.Transparency

/-!
# Effects on the tables

What requests, events and sweeps answer and leave of the tables, when the caches of the store are
coherent.
-/

namespace PollKeeper

open Time StoreAction

def Store.direct (s : Store) : DirectStore := ⟨s.database.tables, s.locks⟩

/-- What a request leaves of the tables, and what it answers. -/
structure Leaves {α : Type} (r : Except StoreError α × Store) (result : Except StoreError α)
    (t : Tables) : Prop where
  coherent : r.2.Coherent
  result : r.1 = result
  tables : r.2.database.tables = t

private theorem Mirrors.leaves {α : Type} {r : Except StoreError α × Store}
    {d : Except StoreError α × DirectStore} (h : Mirrors r d) : Leaves r d.1 d.2.tables := by
  obtain ⟨c, hc, rfl⟩ := h
  exact ⟨⟨rfl, hc⟩, rfl, rfl⟩

theorem Serves.leaves {α : Type} {a : StoreAction α}
    {f : Tables → Except StoreError (α × Tables)} (ha : Serves a f) {s : Store} (hs : s.Coherent) :
    Leaves (a.outcome s) ((f s.database.tables).map (·.1))
      (s.database.tables.afterwards (f s.database.tables)) := by
  obtain ⟨c, hc, ho⟩ := ha s hs _ rfl
  rw [ho]
  exact ⟨⟨rfl, hc⟩, rfl, rfl⟩

theorem Serves.leaves_reading {α : Type} {a : StoreAction α} {f : Tables → Except StoreError α}
    (ha : Serves a (reading f)) {s : Store} (hs : s.Coherent) :
    Leaves (a.outcome s) (f s.database.tables) s.database.tables := by
  have hleaves := ha.leaves hs
  simp only [reading] at hleaves
  cases hf : f s.database.tables with
  | error e =>
    rw [hf] at hleaves
    exact hleaves
  | ok x =>
    rw [hf] at hleaves
    exact hleaves

theorem ofStamp_eq_ok {stamp : EditStamp} {e : PollEdit} (h : PollEdit.ofStamp stamp = .ok e) :
    e.toStamp = stamp := by
  simp only [PollEdit.ofStamp] at h
  cases ht : Instant.ofMillis? stamp.editedAt with
  | none => rw [ht] at h; cases h
  | some t =>
    rw [ht] at h
    cases h
    simp only [Instant.ofMillis?, Instant.ofTotal?] at ht
    split at ht
    · cases ht
      have hmillis : (stamp.editedAt * 1000000 / 1000000000 * 1000000000 +
          ((stamp.editedAt * 1000000 % 1000000000).toNat : Int)) / 1000000 = stamp.editedAt := by
        omega
      simp only [PollEdit.toStamp, Instant.millis, Instant.total, hmillis]
    · cases ht

theorem mapM_ofStamp_eq_ok {stamps : List EditStamp} {edits : List PollEdit}
    (h : stamps.mapM PollEdit.ofStamp = .ok edits) : edits.map (·.toStamp) = stamps := by
  induction stamps generalizing edits with
  | nil => cases h; rfl
  | cons stamp rest ih =>
    rw [List.mapM_cons] at h
    obtain ⟨e, he, h⟩ := bind_eq_ok h
    obtain ⟨es, hes, h⟩ := bind_eq_ok h
    cases h
    rw [List.map_cons, ofStamp_eq_ok he, ih hes]

theorem fetch_eq_ok {t : Tables} {key : PollKey} {p : Poll} (h : t.fetch key = .ok p) :
    t.poll? key = .ok (some p) := by
  obtain ⟨found, hfound, h⟩ := bind_eq_ok h
  cases found with
  | none => cases h
  | some q =>
    cases h
    exact hfound

theorem latestEdit_eq_ok {t : Tables} {key : PollKey} {e : PollEdit}
    (h : t.latestEdit key = .ok e) : ∃ r, t.row? key = some r ∧ e.toStamp = ⟨key, r.editedAt⟩ := by
  simp only [Tables.latestEdit, Tables.stamp?] at h
  cases hr : t.row? key with
  | none => rw [hr] at h; cases h
  | some r =>
    rw [hr] at h
    exact ⟨r, rfl, ofStamp_eq_ok h⟩

namespace Store

theorem leaves_react {s : Store} (hs : s.Coherent) (e : StoreEvent) :
    (s.react e).2.Coherent ∧ (s.react e).1 = (s.direct.react e).1 ∧
      (s.react e).2.database.tables = (s.direct.react e).2.tables := by
  obtain ⟨⟨t, _⟩, caches, locks⟩ := s
  obtain ⟨rfl, hcaches⟩ := hs
  obtain ⟨c, hc, ho⟩ := mirrors_react e (s := ⟨t, locks⟩) hcaches
  have ho' : (⟨⟨t, false⟩, caches, locks⟩ : Store).react e = _ := ho
  rw [ho']
  exact ⟨⟨rfl, hc⟩, rfl, rfl⟩

theorem direct_react {s : Store} (hs : s.Coherent) (e : StoreEvent) :
    (s.react e).2.direct = (s.direct.react e).2 := by
  obtain ⟨⟨t, _⟩, caches, locks⟩ := s
  obtain ⟨rfl, hcaches⟩ := hs
  obtain ⟨c, -, ho⟩ := mirrors_react e (s := ⟨t, locks⟩) hcaches
  have ho' : (⟨⟨t, false⟩, caches, locks⟩ : Store).react e = _ := ho
  rw [ho']
  rfl

theorem Coherent.after {s : Store} (hs : s.Coherent) (events : List StoreEvent) :
    (s.after events).Coherent := by
  induction events generalizing s with
  | nil => exact hs
  | cons e rest ih => exact ih (leaves_react hs e).1

theorem coherent_after (events : List StoreEvent) : (fresh.after events).Coherent :=
  coherent_fresh.after events

/-- The holder of a lock is answered from the tables. A request that is refused changes nothing. -/
theorem react_of_isHeld {s : Store} (hs : s.Coherent) {h : Handle} (hheld : s.locks.isHeld h) (now : Instant)
    (r : GuildRequest) :
    let served := s.react (.request now (.ofGuild h r))
    match s.database.tables.serve h.guild now r with
    | .ok (a, t) => served.1 = .answer (.ok a) ∧ served.2.direct = ⟨t, s.locks⟩
    | .error e => served.1 = .answer (.error e) ∧ served.2.direct = s.direct := by
  obtain ⟨-, hreply, -⟩ := leaves_react hs (.request now (.ofGuild h r))
  have hleft := direct_react hs (.request now (.ofGuild h r))
  have hheld' : s.direct.locks.isHeld h = true := hheld
  have hserved : s.direct.answer now (.ofGuild h r) =
      s.direct.served (s.database.tables.serve h.guild now r) := if_pos hheld'
  simp only [DirectStore.react, hserved] at hreply hleft
  cases hserve : s.database.tables.serve h.guild now r with
  | ok x =>
    rw [hserve] at hreply hleft
    exact ⟨hreply, hleft⟩
  | error e =>
    rw [hserve] at hreply hleft
    exact ⟨hreply, hleft⟩

/-- Stores that differ in their caches alone give the same replies. -/
theorem replies_congr {s s' : Store} (hs : s.Coherent) (hs' : s'.Coherent) (hsame : s.direct = s'.direct)
    (events : List StoreEvent) : s.replies events = s'.replies events := by
  have hdirect : ∀ u : Store, u.Coherent → u.replies events = u.direct.replies events := by
    rintro ⟨⟨t, _⟩, caches, locks⟩ ⟨rfl, hcaches⟩
    exact replies_eq_direct events (s := ⟨t, locks⟩) hcaches
  rw [hdirect s hs, hdirect s' hs', hsame]

theorem leaves_deleteExpired {s : Store} (hs : s.Coherent) (before : Instant) :
    Leaves ((deleteExpired before).outcome s) (.ok (s.direct.deleteExpired before).1)
      (s.direct.deleteExpired before).2.tables := by
  obtain ⟨⟨t, _⟩, caches, locks⟩ := s
  obtain ⟨rfl, hcaches⟩ := hs
  exact (mirrors_deleteExpired before (s := ⟨t, locks⟩) hcaches).leaves

end Store
end PollKeeper
