import PollKeeper.Proofs.Store.Soundness

/-!
# The limit of answers

A selection is cast only if it is within the limit of the poll, but the answers that a new poll brings
along are stored as they are, and so is a lower limit for the answers that are there. These are the
only ways in which a user comes to have given too many answers to a poll, whatever happens to other polls.
-/

namespace PollKeeper

open Time

/-- A request within a guild settles anew whether a user is within the limit of a poll: it stores the poll
or its settings, or casts the selection of the user. -/
def GuildRequest.Settles (poll : PollId) (user : UserId) : GuildRequest → Prop
  | .insert id _ | .update id _ | .edit id _ => id = poll
  | .cast id voter _ => id = poll ∧ voter = user
  | _ => False

/-- A request within the guild of a poll leaves a user within its limit, if it settles that: a new poll
has no more answers of the user than it allows, and a new limit has room for those that are stored. A
selection that is cast is within the limit anyway. -/
def GuildRequest.KeepsWithin (t : Tables) (key : PollKey) (user : UserId) : GuildRequest → Prop
  | .insert id p => id = key.poll → p.WithinLimit user
  | .update id p => id = key.poll → ∀ q, t.fetch key = .ok q →
      (q.answersOf user).length ≤ p.settings.answersPerUser
  | .edit id e => id = key.poll → ∀ q, t.fetch key = .ok q →
      (q.answersOf user).length ≤ (q.edited e).settings.answersPerUser
  | _ => True

namespace Tables

variable {t t' : Tables} {key : PollKey} {user : UserId} {p : Poll}

/-- A user has given no more answers to a poll, if it is stored, than its settings allow. -/
def WithinLimit (t : Tables) (key : PollKey) (user : UserId) : Prop :=
  ∀ p, t.fetch key = .ok p → p.WithinLimit user

theorem forall_fetch_iff (hp : (t.slice key).Denotes key (some p)) {P : Poll → Prop} :
    (∀ q, t.fetch key = .ok q → P q) ↔ P p := by
  rw [fetch_of_denotes hp]
  exact ⟨fun h => h p rfl, fun h q he => Except.ok.inj he ▸ h⟩

theorem withinLimit_of_denotes (hp : (t.slice key).Denotes key (some p)) :
    t.WithinLimit key user ↔ p.WithinLimit user := forall_fetch_iff hp

theorem withinLimit_of_nothing (h : (t.slice key).Denotes key none) : t.WithinLimit key user :=
  fun _ hfetch => nomatch eq_some_of_fetch h hfetch

theorem Drops.withinLimit (h : t.Drops t') (ht : t.Sound) (hlimit : t.WithinLimit key user) :
    t'.WithinLimit key user := by
  obtain ⟨o, ho⟩ := ht key
  rcases h key o ho with hsame | hgone
  · cases o with
    | none => exact withinLimit_of_nothing hsame
    | some p => exact (withinLimit_of_denotes hsame).mpr ((withinLimit_of_denotes ho).mp hlimit)
  · exact withinLimit_of_nothing hgone

/-- A change of one poll makes no difference to another one. -/
theorem Changes.withinLimit {other : PollKey} {stamp : Int} (h : t.Changes other stamp t')
    (hother : key ≠ other) : t'.WithinLimit key user ↔ t.WithinLimit key user := by
  simp only [WithinLimit, fetch, poll?_congr (h.others key hother)]

/-- A request that settles whether a user is within the limit of a poll leaves the user so just if it keeps
the limit, whether or not the user was so before. -/
theorem withinLimit_serve_iff {now : Instant} {r : GuildRequest} {a : Answer} (ht : t.Sound)
    (h : t.serve key.guild now r = .ok (a, t')) (hsettles : r.Settles key.poll user) :
    t'.WithinLimit key user ↔ r.KeepsWithin t key user := by
  obtain ⟨o, ho⟩ := ht key
  cases r with
  | settings | setSettings _ | poll _ | pollIds | lastEdit _ => exact hsettles.elim
  | insert id p =>
    cases (hsettles : id = key.poll)
    have hleft : (t'.slice key).Denotes key (some (p.under key)) := denotes_serve ho rfl h
    have hkeeps : (GuildRequest.insert key.poll p).KeepsWithin t key user ↔ (p.under key).WithinLimit user :=
      forall_prop_of_true rfl
    exact (withinLimit_of_denotes hleft).trans hkeeps.symm
  | update id p =>
    cases (hsettles : id = key.poll)
    obtain ⟨x, hx, he⟩ := bind_eq_ok h
    cases he
    obtain ⟨q, rfl, hleft⟩ := denotes_revise ho hx
    exact (withinLimit_of_denotes hleft).trans
      ((forall_prop_of_true rfl).trans (forall_fetch_iff ho)).symm
  | edit id e =>
    cases (hsettles : id = key.poll)
    obtain ⟨⟨p, x⟩, hx, he⟩ := bind_eq_ok h
    cases he
    obtain ⟨q, rfl, rfl, hleft⟩ := denotes_amend ho hx
    exact (withinLimit_of_denotes hleft).trans
      ((forall_prop_of_true rfl).trans (forall_fetch_iff ho)).symm
  | cast id voter chosen =>
    obtain ⟨hid, rfl⟩ : id = key.poll ∧ voter = user := hsettles
    cases hid
    obtain ⟨x, hx, he⟩ := bind_eq_ok h
    cases he
    obtain ⟨q, rfl, hchecked, hleft⟩ := denotes_castAnswers ho hx
    have hcast := Poll.withinLimit_answered ho.2.valid.ids hchecked voter
    exact iff_of_true ((withinLimit_of_denotes hleft).mpr hcast) trivial

/-- Any other request leaves a user within the limit of a poll. -/
theorem withinLimit_serve {guild : GuildId} {now : Instant} {r : GuildRequest} {a : Answer} (ht : t.Sound)
    (h : t.serve guild now r = .ok (a, t')) (hsettles : guild = key.guild → ¬ r.Settles key.poll user)
    (hlimit : t.WithinLimit key user) : t'.WithinLimit key user := by
  have hchanges := changes_serve h
  cases hid : r.changed? with
  | none =>
    rw [hid] at hchanges
    exact hchanges.drops.withinLimit ht hlimit
  | some id =>
    rw [hid] at hchanges
    by_cases hkey : key = ⟨guild, id⟩
    · subst hkey
      cases r with
      | settings | setSettings _ | poll _ | pollIds | lastEdit _ => cases hid
      | insert | update | edit => exact absurd (Option.some.inj hid) (hsettles rfl)
      | cast _ voter chosen =>
        cases hid
        -- Somebody else answers the poll.
        have hother : user ≠ voter := fun hsame => hsettles rfl ⟨rfl, hsame.symm⟩
        obtain ⟨o, ho⟩ := ht ⟨guild, id⟩
        obtain ⟨x, hx, he⟩ := bind_eq_ok h
        cases he
        obtain ⟨q, rfl, -, hleft⟩ := denotes_castAnswers ho hx
        rw [withinLimit_of_denotes hleft, Poll.withinLimit_answered_of_ne hother]
        exact (withinLimit_of_denotes ho).mp hlimit
    · exact (hchanges.withinLimit hkey).mpr hlimit

end Tables

/-- An event settles anew whether a user is within the limit of a poll. -/
def StoreEvent.Settles (s : Store) (key : PollKey) (user : UserId) (e : StoreEvent) : Prop :=
  ∃ r, e.granted? (s.react e).1 = some (key.guild, r) ∧ r.Settles key.poll user

/-- What an event is granted leaves a user within the limit of a poll, if it settles that. -/
def StoreEvent.KeepsWithin (s : Store) (key : PollKey) (user : UserId) (e : StoreEvent) : Prop :=
  ∀ r, e.granted? (s.react e).1 = some (key.guild, r) → r.KeepsWithin s.database.tables key user

/-- Only what settles whether a user is within the limit can fail to keep it. -/
theorem GuildRequest.keepsWithin_of_not_settles {t : Tables} {key : PollKey} {user : UserId}
    {r : GuildRequest} (h : ¬ r.Settles key.poll user) : r.KeepsWithin t key user := by
  cases r with
  | insert | update | edit => exact fun hid => absurd hid h
  | _ => trivial

namespace Store

variable {s : Store} {e : StoreEvent} {key : PollKey} {user : UserId}

/-- A user has given no more answers to a poll, if it is stored, than its settings allow. -/
def WithinLimit (s : Store) (key : PollKey) (user : UserId) : Prop :=
  s.database.tables.WithinLimit key user

theorem withinLimit_react_iff (hs : s.Coherent) (ht : s.database.tables.Sound)
    (hsettles : e.Settles s key user) :
    (s.react e).2.WithinLimit key user ↔ e.KeepsWithin s key user := by
  obtain ⟨r, hgranted, hr⟩ := hsettles
  have hstep := serves_or_drops hs e
  rw [hgranted] at hstep
  obtain ⟨now, a, hserve⟩ := hstep
  refine (Tables.withinLimit_serve_iff ht hserve hr).trans ⟨fun hkeeps r' hr' => ?_, fun h => h r hgranted⟩
  cases hgranted.symm.trans hr'
  exact hkeeps

theorem keepsWithin_of_not_settles (h : ¬ e.Settles s key user) : e.KeepsWithin s key user :=
  fun r hgranted => GuildRequest.keepsWithin_of_not_settles fun hr => h ⟨r, hgranted, hr⟩

theorem withinLimit_react (hs : s.Coherent) (ht : s.database.tables.Sound)
    (hsettles : ¬ e.Settles s key user) (hlimit : s.WithinLimit key user) :
    (s.react e).2.WithinLimit key user := by
  have hstep := serves_or_drops hs e
  cases hgranted : e.granted? (s.react e).1 with
  | none =>
    rw [hgranted] at hstep
    exact hstep.withinLimit ht hlimit
  | some granted =>
    obtain ⟨guild, r⟩ := granted
    rw [hgranted] at hstep
    obtain ⟨now, a, hserve⟩ := hstep
    refine Tables.withinLimit_serve ht hserve (fun hguild hr => ?_) hlimit
    exact hsettles ⟨r, hguild ▸ hgranted, hr⟩

private theorem after_take_succ {events : List StoreEvent} {n : Nat} (he : events[n]? = some e) :
    s.after (events.take (n + 1)) = ((s.after (events.take n)).react e).2 := by
  rw [List.take_add_one, he, after, List.foldl_append]
  rfl

/-- At every time in a run, a user is within the limit of a poll, or the last event that has settled this has
failed to keep the limit. -/
theorem withinLimit_or_broken (key : PollKey) (user : UserId) (events : List StoreEvent) (n : Nat) :
    (fresh.after (events.take n)).WithinLimit key user ∨
      ∃ k < n, ∃ e, events[k]? = some e ∧ ¬ e.KeepsWithin (fresh.after (events.take k)) key user ∧
        ∀ m < n, k < m → ∀ e', events[m]? = some e' →
          ¬ e'.Settles (fresh.after (events.take m)) key user := by
  induction n with
  | zero => exact .inl (Tables.withinLimit_of_nothing (PollSlice.denotes_nothing key))
  | succ n ih =>
    by_cases hsettles : ∃ e, events[n]? = some e ∧ e.Settles (fresh.after (events.take n)) key user
    · obtain ⟨e, he, hsettles⟩ := hsettles
      have hreact := withinLimit_react_iff (coherent_after _) (sound_after _) hsettles
      by_cases hkeeps : e.KeepsWithin (fresh.after (events.take n)) key user
      · exact .inl (after_take_succ he ▸ hreact.mpr hkeeps)
      · exact .inr ⟨n, n.lt_succ_self, e, he, hkeeps, fun m hm hnm => absurd hnm (by omega)⟩
    · rcases ih with hlimit | ⟨k, hk, e, he, hbroken, hlast⟩
      · cases he : events[n]? with
        | some e =>
          refine .inl (after_take_succ he ▸ ?_)
          exact withinLimit_react (coherent_after _) (sound_after _) (fun h => hsettles ⟨e, he, h⟩) hlimit
        | none =>
          rw [List.take_add_one, he, Option.toList_none, List.append_nil]
          exact .inl hlimit
      · refine .inr ⟨k, Nat.lt_succ_of_lt hk, e, he, hbroken, fun m hm hkm e' he' hthere => ?_⟩
        rcases Nat.lt_succ_iff_lt_or_eq.mp hm with hm | rfl
        · exact hlast m hm hkm e' he' hthere
        · exact hsettles ⟨e', he', hthere⟩

/-- At every moment of a run, and whatever was done to other polls and by other users, a user is within the
limit of a poll, unless the last granted insertion, update or edit of the poll, or cast of the user in it, was
one that did not keep the limit; a cast always does. Each of these settles the matter anew. No other event,
such as a cast of somebody else, a sweep or anything that is done to other polls, takes a user over the limit.
Every poll that is stored can be read. -/
theorem limit_broken_by_poll_alone (key : PollKey) (user : UserId) (events : List StoreEvent) :
    let s := fresh.after events
    (s.WithinLimit key user ∨
      ∃ (k : Nat) (e : StoreEvent), events[k]? = some e ∧
        ¬ e.KeepsWithin (fresh.after (events.take k)) key user ∧
        ∀ (m : Nat) (e' : StoreEvent), k < m → events[m]? = some e' →
          ¬ e'.Settles (fresh.after (events.take m)) key user) ∧
      (∀ e : StoreEvent,
        (e.Settles s key user → ((s.react e).2.WithinLimit key user ↔ e.KeepsWithin s key user)) ∧
          (¬ e.Settles s key user → e.KeepsWithin s key user ∧
            (s.WithinLimit key user → (s.react e).2.WithinLimit key user))) ∧
      ∀ other, (∃ p, s.database.tables.fetch other = .ok p) ∨
        s.database.tables.fetch other = .error .notFound := by
  intro s
  have hs : s.Coherent := coherent_after events
  have ht : s.database.tables.Sound := sound_after events
  refine ⟨?_, fun e => ⟨withinLimit_react_iff hs ht, fun hsettles =>
    ⟨keepsWithin_of_not_settles hsettles, withinLimit_react hs ht hsettles⟩⟩, fun other => ?_⟩
  · have hcases := withinLimit_or_broken key user events events.length
    rw [List.take_length] at hcases
    refine hcases.imp_right fun ⟨k, _, e, he, hbroken, hlast⟩ => ⟨k, e, he, hbroken, fun m e' hm he' => ?_⟩
    exact hlast m (List.getElem?_eq_some_iff.mp he').1 hm e' he'
  · obtain ⟨o, ho⟩ := ht other
    cases o with
    | none => exact .inr (by rw [Tables.fetch, Tables.poll?_of_denotes ho]; rfl)
    | some p => exact .inl ⟨p, Tables.fetch_of_denotes ho⟩

end Store

def Poll.crowded : Poll :=
  { lunch with choices := [⟨1, "Here", .ofList [5]⟩, ⟨2, "There", .ofList [5]⟩] }

def Poll.roomy : Poll :=
  { crowded with
    settings := { Settings.standard with
      answersPerUser := 2
      answersPerUser_pos := by decide
      answersPerUser_le := by decide } }

namespace Store

def inserting (p : Poll) : List StoreEvent :=
  [.acquire 1, .request .earliest (.ofGuild ⟨1, 0⟩ (.insert 7 p))]

def lowering (p q : Poll) : List StoreEvent :=
  inserting p ++ [.request .earliest (.ofGuild ⟨1, 0⟩ (.update 7 q))]

/-- An insertion takes user 5 over the limit of a poll in guild 2, and not over that of one in guild 1. -/
theorem limit_broken_by_poll_alone_of_crowded :
    let s := fresh.after (inserting .roomy ++ [.acquire 2])
    let e : StoreEvent := .request .earliest (.ofGuild ⟨2, 1⟩ (.insert 7 .crowded))
    (e.Settles s ⟨2, 7⟩ 5 ∧ ¬ (s.react e).2.WithinLimit ⟨2, 7⟩ 5) ∧
      ¬ e.Settles s ⟨1, 7⟩ 5 ∧ s.WithinLimit ⟨1, 7⟩ 5 ∧ (s.react e).2.WithinLimit ⟨1, 7⟩ 5 := by
  intro s e
  have hgranted : e.granted? (s.react e).1 = some (2, .insert 7 .crowded) := rfl
  have hsettles : e.Settles s ⟨2, 7⟩ 5 := ⟨_, hgranted, rfl⟩
  have hbreaks : ¬ e.KeepsWithin s ⟨2, 7⟩ 5 := fun hkeeps =>
    absurd (hkeeps _ hgranted rfl) (by decide)
  have hother : ¬ e.Settles s ⟨1, 7⟩ 5 := by
    rintro ⟨r, hr, -⟩
    cases hgranted.symm.trans hr
  have hroomy := Tables.stores_withPoll (t := .empty) (p := .roomy) (PollSlice.denotes_nothing ⟨1, 7⟩)
    (Poll.validate_eq_ok_iff.mp rfl) Instant.earliest.millis
  have hwithin : s.WithinLimit ⟨1, 7⟩ 5 := (Tables.withinLimit_of_denotes ⟨rfl, hroomy⟩).mpr (by decide)
  obtain ⟨-, hhere, -⟩ := limit_broken_by_poll_alone ⟨2, 7⟩ 5 (inserting .roomy ++ [.acquire 2])
  obtain ⟨-, hthere, -⟩ := limit_broken_by_poll_alone ⟨1, 7⟩ 5 (inserting .roomy ++ [.acquire 2])
  exact ⟨⟨hsettles, mt ((hhere e).1 hsettles).mp hbreaks⟩, hother, hwithin, ((hthere e).2 hother).2 hwithin⟩

/-- A poll that breaks its limit is stored, and so is a limit that the stored answers break. -/
theorem crowded_exceeds_limit :
    Poll.crowded.validate = .ok () ∧
    ((fresh.after (inserting .crowded)).database.tables.fetch ⟨1, 7⟩ = .ok .crowded ∧
      ¬ (fresh.after (inserting .crowded)).WithinLimit ⟨1, 7⟩ 5) ∧
    (fresh.after (inserting .roomy)).WithinLimit ⟨1, 7⟩ 5 ∧
    (fresh.after (lowering .roomy .crowded)).database.tables.fetch ⟨1, 7⟩ = .ok .crowded ∧
      ¬ (fresh.after (lowering .roomy .crowded)).WithinLimit ⟨1, 7⟩ 5 := by
  have hlimit : ¬ Poll.crowded.WithinLimit 5 := by decide
  have hempty := PollSlice.denotes_nothing ⟨1, 7⟩
  have hcrowded := Tables.stores_withPoll (t := .empty) (p := .crowded) hempty
    (Poll.validate_eq_ok_iff.mp rfl) Instant.earliest.millis
  have hroomy := Tables.stores_withPoll (t := .empty) (p := .roomy) hempty
    (Poll.validate_eq_ok_iff.mp rfl) Instant.earliest.millis
  have hlowered := Tables.stores_withDetails hroomy (p := .crowded)
    (Poll.validate_eq_ok_iff.mp rfl) Instant.earliest.millis
  have hinserted : (fresh.after (inserting .crowded)).database.tables.fetch ⟨1, 7⟩ = .ok .crowded :=
    Tables.fetch_of_denotes ⟨rfl, hcrowded⟩
  have hupdated : (fresh.after (lowering .roomy .crowded)).database.tables.fetch ⟨1, 7⟩ = .ok .crowded :=
    Tables.fetch_of_denotes ⟨rfl, hlowered⟩
  exact ⟨rfl, ⟨hinserted, fun h => hlimit (h _ hinserted)⟩,
    (Tables.withinLimit_of_denotes ⟨rfl, hroomy⟩).mpr (by decide), hupdated,
    fun h => hlimit (h _ hupdated)⟩

end Store
end PollKeeper
