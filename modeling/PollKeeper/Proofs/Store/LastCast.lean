import Mathlib.Data.List.Induction
import PollKeeper.Proofs.Store.Integrity

/-!
# The last cast wins

However the casts of several voters on a poll are interleaved, with each other and with edits, each voter
ends up with the last selection that was accepted. Whether a selection is accepted depends on the options
and the limit of the poll alone, and these stay; so the order between different voters does not matter.
-/

namespace PollKeeper

open Time

attribute [ext] Choice

/-- A selection that a voter hands in. -/
structure Cast where
  voter : UserId
  chosen : IdSet
  deriving DecidableEq

def Choice.mark (c : Choice) (cast : Cast) : Choice :=
  { c with
    voters := if c.id ∈ cast.chosen then c.voters.insert cast.voter else c.voters.erase cast.voter }

/-- The last selection of a user. -/
def lastOf (user : UserId) (casts : List Cast) : Option IdSet :=
  ((casts.filter (·.voter = user)).getLast?).map (·.chosen)

def marked (choices : List Choice) (casts : List Cast) : List Choice :=
  choices.map fun c => casts.foldl Choice.mark c

variable {casts casts' : List Cast} {choices : List Choice}

theorem lastOf_concat (user : UserId) (casts : List Cast) (last : Cast) :
    lastOf user (casts ++ [last]) =
      if last.voter = user then some last.chosen else lastOf user casts := by
  rw [lastOf, List.filter_append]
  by_cases h : last.voter = user
  · simp [h]
  · simp [h, lastOf]

theorem exists_of_lastOf {user : UserId} {chosen : IdSet} (h : lastOf user casts = some chosen) :
    ∃ cast ∈ casts, cast.voter = user ∧ cast.chosen = chosen := by
  obtain ⟨cast, hlast, rfl⟩ := Option.map_eq_some_iff.mp h
  obtain ⟨hmem, hvoter⟩ := List.mem_filter.mp (List.mem_of_getLast? hlast)
  exact ⟨cast, hmem, of_decide_eq_true hvoter, rfl⟩

theorem foldl_mark_id (casts : List Cast) (c : Choice) :
    (casts.foldl Choice.mark c).id = c.id ∧ (casts.foldl Choice.mark c).name = c.name := by
  induction casts generalizing c with
  | nil => exact ⟨rfl, rfl⟩
  | cons first rest ih => exact ih (c.mark first)

/-- Of all the casts of a user, the last one alone decides. -/
theorem mem_voters_foldl_mark (casts : List Cast) (c : Choice) (user : UserId) :
    user ∈ (casts.foldl Choice.mark c).voters ↔
      (lastOf user casts).elim (user ∈ c.voters) (c.id ∈ ·) := by
  induction casts using List.reverseRecOn with
  | nil => rfl
  | append_singleton rest last ih =>
    rw [List.foldl_append, List.foldl_cons, List.foldl_nil, lastOf_concat]
    simp only [Choice.mark, (foldl_mark_id rest c).1]
    by_cases hvoter : last.voter = user
    · subst hvoter
      by_cases hid : c.id ∈ last.chosen <;> simp [hid]
    · have hother : user ≠ last.voter := Ne.symm hvoter
      by_cases hid : c.id ∈ last.chosen <;> simp [hid, hvoter, hother, ih]

theorem marked_append (choices : List Choice) (casts casts' : List Cast) :
    marked choices (casts ++ casts') = marked (marked choices casts) casts' := by
  simp [marked, List.map_map, Function.comp_def]

theorem marked_names (choices : List Choice) (casts : List Cast) :
    (marked choices casts).map (fun c => (c.id, c.name)) = choices.map fun c => (c.id, c.name) := by
  rw [marked, List.map_map]
  refine List.map_congr_left fun c _ => ?_
  obtain ⟨hid, hname⟩ := foldl_mark_id casts c
  exact Prod.ext hid hname

theorem marked_ids (choices : List Choice) (casts : List Cast) :
    (marked choices casts).map (·.id) = choices.map (·.id) := by
  have hnames := congrArg (List.map Prod.fst) (marked_names choices casts)
  rwa [List.map_map, List.map_map] at hnames

/-- Two lists of casts with the same last selection of each user leave the same options. -/
theorem marked_congr (h : ∀ user, lastOf user casts = lastOf user casts') (choices : List Choice) :
    marked choices casts = marked choices casts' := by
  refine List.map_congr_left fun c _ => ?_
  have hvoters : (casts.foldl Choice.mark c).voters = (casts'.foldl Choice.mark c).voters := by
    refine IdSet.ext_mem fun user => ?_
    rw [mem_voters_foldl_mark, mem_voters_foldl_mark, h]
  obtain ⟨hid, hname⟩ := foldl_mark_id casts c
  obtain ⟨hid', hname'⟩ := foldl_mark_id casts' c
  exact Choice.ext (hid.trans hid'.symm) (hname.trans hname'.symm) hvoters

namespace Poll

variable {p q : Poll}

private theorem choices_answered (q : Poll) (voter : UserId) (chosen : IdSet) :
    (q.answered voter chosen).choices = marked q.choices [⟨voter, chosen⟩] := rfl

/-- The options of a selection exist, and there are not too many. -/
def admits (p : Poll) (cast : Cast) : Bool :=
  cast.chosen.toList.all (· ∈ p.choices.map (·.id)) && cast.chosen.size ≤ p.settings.answersPerUser

theorem admits_iff {cast : Cast} : p.admits cast = true ↔ p.checkSelection cast.chosen = .ok () := by
  simp [admits, checkSelection_eq_ok_iff]

theorem admits_congr (hids : q.choices.map (·.id) = p.choices.map (·.id))
    (hlimit : q.settings.answersPerUser = p.settings.answersPerUser) : q.admits = p.admits := by
  funext cast
  simp only [admits, hids, hlimit]

/-- Each user has the last selection, or the answers from before. -/
theorem answersOf_marked (hq : q.choices = marked p.choices casts)
    (hadmits : ∀ cast ∈ casts, p.admits cast = true) (user : UserId) :
    IdSet.ofList (q.answersOf user) = (lastOf user casts).getD (.ofList (p.answersOf user)) := by
  refine IdSet.ext_mem fun id => ?_
  have hmem : id ∈ q.answersOf user ↔
      ∃ c ∈ p.choices, c.id = id ∧ (lastOf user casts).elim (user ∈ c.voters) (c.id ∈ ·) := by
    simp only [mem_answersOf, hq, marked, List.mem_map]
    constructor
    · rintro ⟨-, ⟨c, hc, rfl⟩, hid, huser⟩
      exact ⟨c, hc, (foldl_mark_id casts c).1 ▸ hid, (mem_voters_foldl_mark casts c user).mp huser⟩
    · rintro ⟨c, hc, rfl, huser⟩
      exact ⟨_, ⟨c, hc, rfl⟩, (foldl_mark_id casts c).1, (mem_voters_foldl_mark casts c user).mpr huser⟩
  rw [IdSet.mem_ofList, hmem]
  cases hlast : lastOf user casts with
  | none => simp [mem_answersOf]
  | some chosen =>
    obtain ⟨cast, hcast, -, rfl⟩ := exists_of_lastOf hlast
    have hknown := (checkSelection_eq_ok_iff.mp (admits_iff.mp (hadmits cast hcast))).1
    simp only [Option.elim_some, Option.getD_some]
    refine ⟨fun ⟨c, _, hid, h⟩ => hid ▸ h, fun h => ?_⟩
    obtain ⟨c, hc, rfl⟩ := List.mem_map.mp (hknown id h)
    exact ⟨c, hc, rfl, h⟩

end Poll

/-- What a request within a guild that succeeds leaves of a stored poll. -/
def GuildRequest.leavesOf (guild : GuildId) (key : PollKey) (q : Poll) : GuildRequest → Poll
  | .update id p => if key = ⟨guild, id⟩ then q.revised p else q
  | .edit id e => if key = ⟨guild, id⟩ then q.edited e else q
  | .cast id voter chosen => if key = ⟨guild, id⟩ then q.answered voter (.ofList chosen) else q
  | _ => q

def StoreEvent.leavesOf (key : PollKey) (e : StoreEvent) (reply : StoreReply) (q : Poll) : Poll :=
  match e.granted? reply with
  | some (guild, r) => r.leavesOf guild key q
  | none => q

def GuildRequest.cast? (guild : GuildId) (key : PollKey) : GuildRequest → Option Cast
  | .cast id voter chosen => if ⟨guild, id⟩ = key then some ⟨voter, .ofList chosen⟩ else none
  | _ => none

/-- The cast on a poll that an event makes, if it holds the lock. -/
def Store.attempt? (key : PollKey) (s : Store) : StoreEvent → Option Cast
  | .request _ (.ofGuild h r) => if s.locks.isHeld h then r.cast? h.guild key else none
  | _ => none

/-- The cast on a poll that was accepted. -/
def StoreEvent.accepted? (key : PollKey) (e : StoreEvent) (reply : StoreReply) : Option Cast :=
  (e.granted? reply).bind fun (guild, r) => r.cast? guild key

def GuildRequest.KeepsLimit (guild : GuildId) (key : PollKey) (limit : Nat) : GuildRequest → Prop
  | .update id p => key = ⟨guild, id⟩ → p.settings.answersPerUser = limit
  | .edit id e => key = ⟨guild, id⟩ → ∀ v, e.settings = some v → v.answersPerUser = limit
  | _ => True

/-- An event is no sweep of ended polls, and does not give a poll another limit of answers. -/
def StoreEvent.KeepsLimit (key : PollKey) (limit : Nat) : StoreEvent → Prop
  | .request _ (.ofGuild h r) => r.KeepsLimit h.guild key limit
  | .request _ (.deleteExpired _) => False
  | _ => True

theorem StoreEvent.eq_of_granted? {e : StoreEvent} {reply : StoreReply} {granted : GuildId × GuildRequest}
    (h : e.granted? reply = some granted) :
    ∃ now h, e = .request now (.ofGuild h granted.2) ∧ h.guild = granted.1 := by
  simp only [granted?] at h
  split at h
  · cases h
    exact ⟨_, _, rfl, rfl⟩
  · cases h

namespace GuildRequest

variable {guild : GuildId} {key : PollKey} {q : Poll}

/-- The options stay, but for the cast that the request makes. -/
theorem choices_leavesOf (r : GuildRequest) :
    (r.leavesOf guild key q).choices = marked q.choices (r.cast? guild key).toList := by
  have hsame : marked q.choices [] = q.choices := List.map_id _
  cases r with
  | cast id voter chosen =>
    simp only [leavesOf, cast?, eq_comm (a := key)]
    split
    · exact q.choices_answered voter (.ofList chosen)
    · exact hsame.symm
  | update | edit =>
    simp only [leavesOf]
    split <;> exact hsame.symm
  | settings | setSettings | poll | insert | pollIds | lastEdit => exact hsame.symm

private theorem limit_leavesOf {r : GuildRequest} (h : r.KeepsLimit guild key q.settings.answersPerUser) :
    (r.leavesOf guild key q).settings.answersPerUser = q.settings.answersPerUser := by
  cases r with
  | update id p =>
    simp only [leavesOf]
    split
    · next hkey => exact h hkey
    · rfl
  | edit id e =>
    simp only [leavesOf]
    split
    · next hkey =>
      simp only [Poll.edited]
      cases hsettings : e.settings with
      | none => rfl
      | some v => exact h hkey v hsettings
    · rfl
  | cast =>
    simp only [leavesOf]
    split <;> rfl
  | settings | setSettings | poll | insert | pollIds | lastEdit => rfl

end GuildRequest

namespace Store

def attempts (key : PollKey) : Store → List StoreEvent → List Cast
  | _, [] => []
  | s, e :: rest => (s.attempt? key e).toList ++ (s.react e).2.attempts key rest

def accepted (key : PollKey) : Store → List StoreEvent → List Cast
  | _, [] => []
  | s, e :: rest => (e.accepted? key (s.react e).1).toList ++ (s.react e).2.accepted key rest

def Allows (key : PollKey) (limit : Nat) (s : Store) : Prop :=
  ∃ q, s.database.tables.fetch key = .ok q ∧ q.settings.answersPerUser = limit

/-- Throughout a run the poll stays, and so does its limit. -/
def KeepsAllowing (key : PollKey) (limit : Nat) : Store → List StoreEvent → Prop
  | s, [] => s.Allows key limit
  | s, e :: rest => s.Allows key limit ∧ (s.react e).2.KeepsAllowing key limit rest

end Store

namespace Tables

variable {t t' : Tables} {key : PollKey} {q q' : Poll} {now : Instant}

theorem denotes_leavesOf {guild : GuildId} {r : GuildRequest} {a : Answer}
    (hq : (t.slice key).Denotes key (some q)) (h : t.serve guild now r = .ok (a, t')) :
    (t'.slice key).Denotes key (some (r.leavesOf guild key q)) := by
  have hchanges := changes_serve h
  cases r with
  | settings | poll id | lastEdit id =>
    obtain ⟨x, -, hx⟩ := bind_eq_ok h
    cases hx
    exact hq
  | setSettings s | pollIds =>
    cases h
    exact hq
  | insert id p =>
    refine (hchanges.others key ?_).symm ▸ hq
    -- A poll that is stored is not inserted again.
    rintro rfl
    obtain ⟨x, hx, -⟩ := bind_eq_ok h
    obtain ⟨hnew, -⟩ := insertPoll_eq_ok (create_eq_ok hx).2
    cases hq.eq_none hnew
  | update id _ | edit id _ | cast id _ _ =>
    simp only [GuildRequest.leavesOf]
    split
    · next hkey =>
      subst hkey
      exact denotes_serve hq rfl h
    · next hkey => exact (hchanges.others key hkey).symm ▸ hq

theorem eq_cast_of_cast? {guild : GuildId} {r : GuildRequest} {cast : Cast}
    (h : r.cast? guild key = some cast) :
    ∃ id voter chosen, r = .cast id voter chosen ∧ key = ⟨guild, id⟩ ∧ cast = ⟨voter, .ofList chosen⟩ := by
  cases r with
  | cast id voter chosen =>
    simp only [GuildRequest.cast?] at h
    split at h
    · next hkey => exact ⟨id, voter, chosen, rfl, hkey.symm, (Option.some.inj h).symm⟩
    · cases h
  | settings | setSettings | poll | insert | update | edit | pollIds | lastEdit => cases h

/-- A cast on a stored poll is served just if the poll admits it. -/
theorem serve_of_admits {guild : GuildId} {r : GuildRequest} {cast : Cast}
    (hq : (t.slice key).Denotes key (some q)) (hcast : r.cast? guild key = some cast)
    (hadmits : q.admits cast = true) (now : Instant) :
    ∃ t', t.serve guild now r = .ok (.done, t') := by
  obtain ⟨id, voter, chosen, rfl, rfl, rfl⟩ := eq_cast_of_cast? hcast
  obtain ⟨t', ht'⟩ := exists_castAnswers hq (Poll.admits_iff.mp hadmits) voter now
  refine ⟨t', ?_⟩
  rw [serve, ht']
  rfl

private theorem admits_of_serve {guild : GuildId} {r : GuildRequest} {cast : Cast} {a : Answer}
    (hq : (t.slice key).Denotes key (some q)) (hcast : r.cast? guild key = some cast)
    (h : t.serve guild now r = .ok (a, t')) : q.admits cast = true := by
  obtain ⟨id, voter, chosen, rfl, rfl, rfl⟩ := eq_cast_of_cast? hcast
  obtain ⟨x, hx, -⟩ := bind_eq_ok h
  obtain ⟨q', hq', hchecked, -⟩ := denotes_castAnswers hq hx
  cases hq'
  exact Poll.admits_iff.mpr hchecked

end Tables

namespace DirectStore

variable {s : DirectStore} {key : PollKey} {q q' : Poll}

/-- Unless it is a sweep of ended polls, an event leaves of a stored poll what the granted request makes of
it. -/
theorem denotes_react (hq : (s.tables.slice key).Denotes key (some q)) {e : StoreEvent}
    (he : ∀ now before, e ≠ .request now (.deleteExpired before)) :
    ((s.react e).2.tables.slice key).Denotes key (some (e.leavesOf key (s.react e).1 q)) := by
  cases e with
  | request now r =>
    cases r with
    | ofGuild h r =>
      simp only [react, answer]
      split
      · cases hserve : s.tables.serve h.guild now r with
        | ok x => exact Tables.denotes_leavesOf hq hserve
        | error e => exact hq
      · exact hq
    | deleteExpired before => exact absurd rfl (he now before)
    | markFinal keys => exact Tables.denotes_markFinal keys hq
    | markSeen edits => exact Tables.denotes_markSeen _ hq
    | persist keys =>
      obtain ⟨added, hsaved, -⟩ := Tables.savePending_eq keys s.tables
      rw [show (s.react (.request now (.persist keys))).2.tables =
        { s.tables with pending := s.tables.pending ++ added } from hsaved]
      exact Tables.denotes_pending hq _
    | takePersisted guild => exact Tables.denotes_pending hq _
    | editedSince cutoff =>
      simp only [react, answer]
      cases (s.tables.unseenSince cutoff.millis).mapM PollEdit.ofStamp <;> exact hq
    | endedUnrefreshed | clearCaches => exact hq
  | acquire | acquireUnless | wait | giveUp | release | evict => exact hq

private theorem limit_react (hq : (s.tables.slice key).Denotes key (some q)) {e : StoreEvent}
    (he : e.KeepsLimit key q.settings.answersPerUser) :
    ∃ q', ((s.react e).2.tables.slice key).Denotes key (some q') ∧
      q'.settings.answersPerUser = q.settings.answersPerUser := by
  have hspares : ∀ now before, e ≠ .request now (.deleteExpired before) := by
    rintro now before rfl
    exact he
  refine ⟨_, denotes_react hq hspares, ?_⟩
  simp only [StoreEvent.leavesOf]
  cases hgranted : e.granted? (s.react e).1 with
  | none => rfl
  | some granted =>
    obtain ⟨now, h, rfl, hguild⟩ := StoreEvent.eq_of_granted? hgranted
    exact GuildRequest.limit_leavesOf (hguild ▸ he)

theorem eq_leavesOf_of_fetch (hq : (s.tables.slice key).Denotes key (some q)) (e : StoreEvent)
    (hq' : (s.react e).2.tables.fetch key = .ok q') : q' = e.leavesOf key (s.react e).1 q := by
  have hstep := s.serves_or_drops e
  rw [StoreEvent.leavesOf]
  cases hgranted : e.granted? (s.react e).1 with
  | some granted =>
    rw [hgranted] at hstep
    obtain ⟨now, a, hserve⟩ := hstep
    cases Tables.eq_some_of_fetch (Tables.denotes_leavesOf hq hserve) hq'
    rfl
  | none =>
    rw [hgranted] at hstep
    rcases hstep key (some q) hq with hkept | hgone
    · cases Tables.eq_some_of_fetch hkept hq'
      rfl
    · cases Tables.eq_some_of_fetch hgone hq'

private theorem choices_react (hq : (s.tables.slice key).Denotes key (some q)) (e : StoreEvent)
    (hq' : (s.react e).2.tables.fetch key = .ok q') :
    q'.choices = marked q.choices (e.accepted? key (s.react e).1).toList := by
  rw [eq_leavesOf_of_fetch hq e hq', StoreEvent.leavesOf, StoreEvent.accepted?]
  cases e.granted? (s.react e).1 with
  | some granted => exact granted.2.choices_leavesOf
  | none => exact (List.map_id _).symm

/-- Of the casts that hold the lock, those are accepted that the poll admits. -/
theorem accepted?_react (hq : (s.tables.slice key).Denotes key (some q)) (c : Caches) (e : StoreEvent) :
    e.accepted? key (s.react e).1 = ((s.withCaches c).attempt? key e).filter q.admits := by
  cases e with
  | request now r =>
    cases r with
    | ofGuild h r =>
      have hlocks : (s.withCaches c).locks = s.locks := rfl
      simp only [Store.attempt?, react, answer, hlocks]
      split
      · cases hserve : s.tables.serve h.guild now r with
        | ok x =>
          refine (?_ : r.cast? h.guild key = _)
          cases hcast : r.cast? h.guild key with
          | none => rfl
          | some cast => simp [Option.filter, Tables.admits_of_serve hq hcast hserve]
        | error e =>
          refine (?_ : none = _)
          cases hcast : r.cast? h.guild key with
          | none => rfl
          | some cast =>
            cases hadmits : q.admits cast with
            | false => simp [Option.filter, hadmits]
            | true =>
              obtain ⟨t', hserved⟩ := Tables.serve_of_admits hq hcast hadmits now
              rw [hserve] at hserved
              cases hserved
      · rfl
    | deleteExpired | endedUnrefreshed | markFinal | editedSince | markSeen | persist | takePersisted
    | clearCaches => rfl
  | acquire | acquireUnless | wait | giveUp | release | evict => rfl

end DirectStore

namespace Store

variable {s : Store} {key : PollKey} {p q : Poll} {limit : Nat}

private theorem KeepsAllowing.head {events : List StoreEvent} (h : s.KeepsAllowing key limit events) :
    s.Allows key limit := by
  cases events with
  | nil => exact h
  | cons e rest => exact h.1

private theorem KeepsAllowing.after {events : List StoreEvent} (h : s.KeepsAllowing key limit events) :
    (s.after events).Allows key limit := by
  induction events generalizing s with
  | nil => exact h
  | cons e rest ih => exact ih h.2

theorem Allows.limit_eq (h : s.Allows key limit)
    (hq : (s.database.tables.slice key).Denotes key (some q)) : q.settings.answersPerUser = limit := by
  obtain ⟨q', hfetch, hlimit⟩ := h
  cases Tables.eq_some_of_fetch hq hfetch
  exact hlimit

/-- Casts, edits that do not change the limit, and requests for other polls keep a poll and its limit. -/
theorem keepsAllowing_of_events (hs : s.Coherent)
    (hq : (s.database.tables.slice key).Denotes key (some q)) {events : List StoreEvent}
    (hevents : ∀ e ∈ events, e.KeepsLimit key q.settings.answersPerUser) :
    s.KeepsAllowing key q.settings.answersPerUser events := by
  induction events generalizing s q with
  | nil => exact ⟨q, Tables.fetch_of_denotes hq, rfl⟩
  | cons e rest ih =>
    obtain ⟨he, hrest⟩ := List.forall_mem_cons.mp hevents
    obtain ⟨hcoherent, -, htables⟩ := leaves_react hs e
    obtain ⟨q', hq', hlimit⟩ := DirectStore.limit_react (s := s.direct) hq he
    rw [← hlimit] at hrest ⊢
    exact ⟨⟨q, Tables.fetch_of_denotes hq, hlimit.symm⟩, ih hcoherent (htables ▸ hq') hrest⟩

/-- In a run that keeps a poll and its limit, the options are what the accepted casts make of them one by
one, and those casts are accepted that the poll admitted in the beginning. -/
theorem choices_after (hs : s.Coherent) (ht : s.database.tables.Sound)
    (hq : (s.database.tables.slice key).Denotes key (some q)) {events : List StoreEvent}
    (hkeeps : s.KeepsAllowing key limit events) :
    s.accepted key events = (s.attempts key events).filter q.admits ∧
      ∃ q', ((s.after events).database.tables.slice key).Denotes key (some q') ∧
        q'.choices = marked q.choices (s.accepted key events) := by
  induction events generalizing s q with
  | nil => exact ⟨rfl, q, hq, (List.map_id _).symm⟩
  | cons e rest ih =>
    obtain ⟨hallows, hrest⟩ := hkeeps
    obtain ⟨hcoherent, hreply, htables⟩ := leaves_react hs e
    have ht' : (s.react e).2.database.tables.Sound := htables ▸ DirectStore.sound_react (s := s.direct) ht e
    obtain ⟨o, ho⟩ := ht' key
    obtain ⟨q₁, hfetch, -⟩ := hrest.head
    obtain rfl := Tables.eq_some_of_fetch ho hfetch
    have hchoices : q₁.choices = marked q.choices (e.accepted? key (s.react e).1).toList := by
      rw [hreply]
      exact DirectStore.choices_react (s := s.direct) hq e (htables ▸ hfetch)
    have hstep : e.accepted? key (s.react e).1 = (s.attempt? key e).filter q.admits := by
      rw [hreply]
      exact DirectStore.accepted?_react (s := s.direct) hq s.caches e
    have hadmits : q₁.admits = q.admits := by
      refine Poll.admits_congr ?_ ((hrest.head.limit_eq ho).trans (hallows.limit_eq hq).symm)
      rw [hchoices, marked_ids]
    obtain ⟨haccepted, q', hq', hfinal⟩ := ih hcoherent ht' ho hrest
    refine ⟨?_, q', hq', ?_⟩
    · rw [accepted, attempts, List.filter_append, haccepted, hadmits, hstep]
      cases s.attempt? key e with
      | none => rfl
      | some cast => cases hcast : q.admits cast <;> simp [Option.filter, hcast]
    · rw [hfinal, hchoices, ← marked_append]
      rfl

/-- A selection that is already the last one of its voter changes nothing. -/
theorem answered_eq_self {casts : List Cast} (hq : q.choices = marked p.choices casts) {voter : UserId}
    {chosen : IdSet} (hlast : lastOf voter casts = some chosen) : q.answered voter chosen = q := by
  have hchoices : marked q.choices [⟨voter, chosen⟩] = q.choices := by
    rw [hq, ← marked_append]
    refine marked_congr (fun user => ?_) p.choices
    rw [lastOf_concat]
    split
    · next hvoter => exact hvoter ▸ hlast.symm
    · rfl
  exact congrArg (fun choices => { q with choices }) hchoices

/-- In a run that keeps a poll and its limit, each voter ends up with the last selection that was
accepted, and the options stay. Another run with the same casts of each voter, in whatever order between
the voters, accepts the same ones and ends with the same options. The last accepted cast of a voter is
accepted once more, and changes nothing. -/
theorem last_cast_wins {before events : List StoreEvent} {key : PollKey} {p : Poll}
    (hp : (fresh.after before).database.tables.fetch key = .ok p)
    (hkeeps : (fresh.after before).KeepsAllowing key p.settings.answersPerUser events) :
    let s := fresh.after before
    s.accepted key events = (s.attempts key events).filter p.admits ∧
    ∃ q, (s.after events).database.tables.fetch key = .ok q ∧
      q.choices.map (fun c => (c.id, c.name)) = p.choices.map (fun c => (c.id, c.name)) ∧
      (∀ user, IdSet.ofList (q.answersOf user) =
        (lastOf user (s.accepted key events)).getD (.ofList (p.answersOf user))) ∧
      (∀ events', s.KeepsAllowing key p.settings.answersPerUser events' →
        (∀ user, (s.attempts key events').filter (·.voter = user) =
          (s.attempts key events).filter (·.voter = user)) →
        (∀ user, (s.accepted key events').filter (·.voter = user) =
          (s.accepted key events).filter (·.voter = user)) ∧
        ∃ q', (s.after events').database.tables.fetch key = .ok q' ∧ q'.choices = q.choices) ∧
      ∀ now h voter chosen, (s.after events).locks.isHeld h → h.guild = key.guild →
        lastOf voter (s.accepted key events) = some (.ofList chosen) →
        let e := StoreEvent.request now (.ofGuild h (.cast key.poll voter chosen))
        ((s.after events).react e).1 = .answer (.ok .done) ∧
          ((s.after events).react e).2.database.tables.fetch key = .ok q := by
  intro s
  have hs := coherent_after before
  have ht := sound_after before
  obtain ⟨o, ho⟩ := ht key
  obtain rfl := Tables.eq_some_of_fetch ho hp
  obtain ⟨haccepted, q, hq, hchoices⟩ := choices_after hs ht ho hkeeps
  have hadmits : ∀ cast ∈ s.accepted key events, p.admits cast = true := fun cast hcast =>
    (List.mem_filter.mp (haccepted ▸ hcast)).2
  refine ⟨haccepted, q, Tables.fetch_of_denotes hq, ?_, Poll.answersOf_marked hchoices hadmits, ?_, ?_⟩
  · rw [hchoices, marked_names]
  · intro events' hkeeps' hattempts
    obtain ⟨haccepted', q', hq', hchoices'⟩ := choices_after hs ht ho hkeeps'
    have hsame : ∀ user, (s.accepted key events').filter (·.voter = user) =
        (s.accepted key events).filter (·.voter = user) := by
      intro user
      rw [haccepted, haccepted', List.filter_comm, hattempts, List.filter_comm]
    refine ⟨hsame, q', Tables.fetch_of_denotes hq', ?_⟩
    rw [hchoices, hchoices']
    exact marked_congr (fun user => by rw [lastOf, lastOf, hsame]) p.choices
  · intro now h voter chosen hheld hguild hlast e
    obtain ⟨guild, id⟩ := key
    obtain rfl : h.guild = guild := hguild
    have hself : q.answered voter (.ofList chosen) = q := answered_eq_self hchoices hlast
    obtain ⟨⟨caster, selection⟩, hcast, rfl, rfl⟩ := exists_of_lastOf hlast
    have hids : q.choices.map (·.id) = p.choices.map (·.id) := by rw [hchoices, marked_ids]
    have hlimit : q.settings.answersPerUser = p.settings.answersPerUser := hkeeps.after.limit_eq hq
    have hadmitted := hadmits _ hcast
    rw [← Poll.admits_congr hids hlimit] at hadmitted
    obtain ⟨t', hserve⟩ := Tables.serve_of_admits (r := .cast id caster chosen) hq (if_pos rfl) hadmitted now
    obtain ⟨-, hreply, htables⟩ := leaves_react (hs.after events) e
    have hreact : (s.after events).direct.react e =
        (.answer (.ok .done), ⟨t', (s.after events).locks⟩) := by
      have hheld' : (s.after events).direct.locks.isHeld h := hheld
      simp only [e, DirectStore.react, DirectStore.answer, if_pos hheld']
      rw [show (s.after events).direct.tables.serve h.guild now (.cast id caster chosen) = _ from hserve]
      rfl
    have hdenotes := Tables.denotes_serve hq rfl hserve
    refine ⟨hreply.trans (congrArg Prod.fst hreact), ?_⟩
    rw [htables, hreact]
    exact Tables.fetch_of_denotes (hself ▸ hdenotes)

def castTwice : List StoreEvent := [.request .earliest (.ofGuild ⟨1, 0⟩ (.cast 7 6 [1, 1]))]

/-- User 5 keeps the answer from before. -/
theorem last_cast_wins_of_lunch :
    (fresh.after (inserting .lunch)).accepted ⟨1, 7⟩ castTwice = [⟨6, .ofList [1]⟩] ∧
      ∃ q, ((fresh.after (inserting .lunch)).after castTwice).database.tables.fetch ⟨1, 7⟩ = .ok q ∧
        IdSet.ofList (q.answersOf 6) = .ofList [1] ∧ IdSet.ofList (q.answersOf 5) = .ofList [2] := by
  have hstores := Tables.stores_withPoll (t := .empty) (p := .lunch) (PollSlice.denotes_nothing ⟨1, 7⟩)
    (Poll.validate_eq_ok_iff.mp rfl) Instant.earliest.millis
  have hlunch : ((fresh.after (inserting .lunch)).database.tables.slice ⟨1, 7⟩).Denotes ⟨1, 7⟩
      (some .lunch) := ⟨rfl, hstores⟩
  have hlimit : ∀ e ∈ castTwice, e.KeepsLimit ⟨1, 7⟩ Poll.lunch.settings.answersPerUser := by
    intro e he
    rw [List.mem_singleton.mp he]
    exact True.intro
  have hkeeps := keepsAllowing_of_events (coherent_after _) hlunch hlimit
  obtain ⟨haccepted, q, hq, -, hanswers, -, -⟩ :=
    last_cast_wins (Tables.fetch_of_denotes hlunch) hkeeps
  have hcasts : (fresh.after (inserting .lunch)).accepted ⟨1, 7⟩ castTwice = [⟨6, .ofList [1]⟩] :=
    haccepted.trans (by decide +kernel)
  refine ⟨hcasts, q, hq, ?_, ?_⟩
  · rw [hanswers, hcasts]
    decide
  · rw [hanswers, hcasts]
    decide

end Store

end PollKeeper
