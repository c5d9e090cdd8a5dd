import PollKeeper.Proofs.Store.Edits

/-!
# Ballots and casts

A ballot is checked on the poll that was read, and a cast once more on the poll that is stored. What the
first check lets through the second one accepts. Where answers may not be changed, the first check then stops
the voter for good, until somebody casts for the same voter without it or edits the settings.
-/

namespace PollKeeper

open Time

namespace Poll

variable {p q : Poll} {vote : Cast} {voter : UserId} {chosen : IdSet} {now : Instant}

theorem checkBallot?_eq_ok_iff : p.checkBallot? voter chosen now = some (.ok ()) ↔
    p.hasEnded? now = some false ∧ (p.settings.canChange = true ∨ p.answersOf voter = []) ∧
      chosen.size ≠ 0 ∧ p.checkSelection chosen = .ok () := by
  unfold checkBallot?
  cases p.hasEnded? now with
  | none => simp
  | some ended =>
    cases ended with
    | true => simp
    | false =>
      cases hlocked : !p.settings.canChange && !(p.answersOf voter).isEmpty with
      | true => simp_all
      | false => by_cases hsize : chosen.size = 0 <;> simp_all [or_iff_not_imp_left]

/-- Who has answered a poll that is open is stopped if answers may not be changed. -/
theorem checkBallot?_of_locked (hopen : p.hasEnded? now = some false) (hlocked : p.settings.canChange = false)
    (hvoted : p.answersOf voter ≠ []) : p.checkBallot? voter chosen now = some (.error .answerLocked) := by
  simp [checkBallot?, hopen, hlocked, hvoted]

/-- A later state of a poll, with its start, settings and options, in which a vote still counts. -/
structure KeepsVote (p : Poll) (vote : Cast) (q : Poll) : Prop where
  start : q.start = p.start
  settings : q.settings = p.settings
  ids : q.choices.map (·.id) = p.choices.map (·.id)
  answers : q.answersOf vote.voter = (p.choices.map (·.id)).filter (· ∈ vote.chosen)

private theorem keepsVote_answered (p : Poll) (vote : Cast) :
    p.KeepsVote vote (p.answered vote.voter vote.chosen) := by
  refine ⟨rfl, rfl, marked_ids p.choices [vote], ?_⟩
  rw [answersOf_answered, if_pos rfl]

theorem KeepsVote.mem_answersOf (h : p.KeepsVote vote q) (hchecked : p.checkSelection vote.chosen = .ok ())
    {c : ChoiceId} : c ∈ q.answersOf vote.voter ↔ c ∈ vote.chosen := by
  have hknown := (checkSelection_eq_ok_iff.mp hchecked).1
  rw [h.answers, List.mem_filter, decide_eq_true_eq]
  exact and_iff_right_of_imp (hknown c)

private theorem KeepsVote.answersOf_ne_nil (h : p.KeepsVote vote q)
    (hchecked : p.checkSelection vote.chosen = .ok ()) (hsome : vote.chosen.size ≠ 0) :
    q.answersOf vote.voter ≠ [] := by
  obtain ⟨c, hc⟩ := List.exists_mem_of_length_pos (Nat.pos_of_ne_zero hsome)
  exact List.ne_nil_of_mem ((h.mem_answersOf hchecked).mpr hc)

private theorem KeepsVote.hasEnded? (h : p.KeepsVote vote q) (now : Instant) :
    q.hasEnded? now = p.hasEnded? now := by
  simp only [Poll.hasEnded?, endsAt?, h.start, h.settings]

end Poll

/-- A request gives a poll no other settings and a voter no other selection. -/
def GuildRequest.SparesVote (guild : GuildId) (key : PollKey) (settings : Settings) (vote : Cast) :
    GuildRequest → Prop
  | .update id p => key = ⟨guild, id⟩ → p.settings = settings
  | .edit id e => key = ⟨guild, id⟩ → ∀ v, e.settings = some v → v = settings
  | .cast id voter chosen => key = ⟨guild, id⟩ → voter = vote.voter → IdSet.ofList chosen = vote.chosen
  | _ => True

/-- In a run the poll stays, and no request is granted that gives it other settings or the voter another
selection. -/
def Store.SparesVote (key : PollKey) (settings : Settings) (vote : Cast) : Store → List StoreEvent → Prop
  | s, [] => (s.database.tables.row? key).isSome
  | s, e :: rest => (s.database.tables.row? key).isSome ∧
      (∀ guild r, e.granted? (s.react e).1 = some (guild, r) → r.SparesVote guild key settings vote) ∧
      (s.react e).2.SparesVote key settings vote rest

def StoreEvent.SparesVote (key : PollKey) (settings : Settings) (vote : Cast) : StoreEvent → Prop
  | .request _ (.ofGuild h r) => r.SparesVote h.guild key settings vote
  | .request _ (.deleteExpired _) => False
  | _ => True

private theorem Poll.KeepsVote.leavesOf {p q : Poll} {vote : Cast} {guild : GuildId} {key : PollKey}
    {r : GuildRequest} (h : p.KeepsVote vote q) (hr : r.SparesVote guild key p.settings vote) :
    p.KeepsVote vote (r.leavesOf guild key q) := by
  cases r with
  | update id w =>
    simp only [GuildRequest.leavesOf]
    split
    · next hkey => exact ⟨h.start, hr hkey, h.ids, h.answers⟩
    · exact h
  | edit id e =>
    simp only [GuildRequest.leavesOf]
    split
    · next hkey =>
      refine ⟨h.start, ?_, h.ids, h.answers⟩
      cases hsettings : e.settings with
      | none => simpa [Poll.edited, hsettings] using h.settings
      | some v => simpa [Poll.edited, hsettings] using hr hkey v hsettings
    · exact h
  | cast id voter chosen =>
    simp only [GuildRequest.leavesOf]
    split
    · next hkey =>
      refine ⟨h.start, h.settings, (marked_ids q.choices [⟨voter, .ofList chosen⟩]).trans h.ids, ?_⟩
      rw [Poll.answersOf_answered]
      split
      · next hvoter => rw [h.ids, hr hkey hvoter.symm]
      · exact h.answers
    · exact h
  | settings | setSettings | poll | insert | pollIds | lastEdit => exact h

namespace Store

variable {s : Store} {h : Handle} {id : PollId} {key : PollKey} {p q : Poll} {voter : UserId}
  {chosen : List ChoiceId} {vote : Cast}

theorem SparesVote.head {settings : Settings} {events : List StoreEvent}
    (hspares : s.SparesVote key settings vote events) : (s.database.tables.row? key).isSome := by
  cases events with
  | nil => exact hspares
  | cons e rest => exact hspares.1

/-- Events that ask for nothing of the kind make such a run. -/
theorem sparesVote_of_events (hs : s.Coherent) (hq : (s.database.tables.slice key).Denotes key (some q))
    {settings : Settings} {events : List StoreEvent}
    (hevents : ∀ e ∈ events, e.SparesVote key settings vote) : s.SparesVote key settings vote events := by
  induction events generalizing s q with
  | nil => exact Tables.isSome_row? hq
  | cons e rest ih =>
    obtain ⟨he, hrest⟩ := List.forall_mem_cons.mp hevents
    obtain ⟨hcoherent, -, htables⟩ := leaves_react hs e
    have hspares : ∀ now before, e ≠ .request now (.deleteExpired before) := by
      rintro now before rfl
      exact he
    have hleft := DirectStore.denotes_react (s := s.direct) hq hspares
    refine ⟨Tables.isSome_row? hq, fun guild r hgranted => ?_, ih hcoherent (htables ▸ hleft) hrest⟩
    obtain ⟨now, h, rfl, rfl⟩ := StoreEvent.eq_of_granted? hgranted
    exact he

/-- In a run that leaves it alone, the vote still counts. -/
theorem keepsVote_after (hs : s.InOrder) (hq : (s.database.tables.slice key).Denotes key (some q))
    (hkeeps : p.KeepsVote vote q) {events : List StoreEvent}
    (hspares : s.SparesVote key p.settings vote events) :
    ∃ q', ((s.after events).database.tables.slice key).Denotes key (some q') ∧ p.KeepsVote vote q' := by
  induction events generalizing s q with
  | nil => exact ⟨q, hq, hkeeps⟩
  | cons e rest ih =>
    obtain ⟨-, he, hrest⟩ := hspares
    obtain ⟨-, hreply, htables⟩ := leaves_react hs.coherent e
    have hs' : (s.react e).2.InOrder := hs.react e
    obtain ⟨o, ho⟩ := hs'.sound key
    obtain ⟨r, hr⟩ := Option.isSome_iff_exists.mp hrest.head
    obtain ⟨q', rfl⟩ := ho.isSome hr
    have hleft : q' = e.leavesOf key (s.react e).1 q := by
      rw [hreply]
      exact DirectStore.eq_leavesOf_of_fetch (s := s.direct) hq e (htables ▸ Tables.fetch_of_denotes ho)
    refine ih hs' ho ?_ hrest
    rw [hleft, StoreEvent.leavesOf]
    cases hgranted : e.granted? (s.react e).1 with
    | none => exact hkeeps
    | some granted => exact hkeeps.leavesOf (he granted.1 granted.2 hgranted)

/-- A selection that the stored poll accepts is cast. -/
theorem react_cast (hs : s.InOrder) (hheld : s.locks.isHeld h)
    (hp : (s.database.tables.slice ⟨h.guild, id⟩).Denotes ⟨h.guild, id⟩ (some p))
    (hchecked : p.checkSelection (.ofList chosen) = .ok ()) (voter : UserId) (now : Instant) :
    let casting := s.react (.request now (.ofGuild h (.cast id voter chosen)))
    casting.1 = .answer (.ok .done) ∧
      (casting.2.database.tables.slice ⟨h.guild, id⟩).Denotes ⟨h.guild, id⟩
        (some (p.answered voter (.ofList chosen))) := by
  intro casting
  obtain ⟨t, hserve⟩ := Tables.serve_of_admits (r := .cast id voter chosen) hp (if_pos rfl)
    (Poll.admits_iff.mpr hchecked) now
  have hcasting := react_of_isHeld hs.coherent hheld now (.cast id voter chosen)
  rw [hserve] at hcasting
  have htables : casting.2.database.tables = t := congrArg DirectStore.tables hcasting.2
  exact ⟨hcasting.1, htables ▸ Tables.denotes_serve hp rfl hserve⟩

/-- A selection that was cast is one that the stored poll accepts. -/
theorem checkSelection_of_react (hs : s.InOrder) (hheld : s.locks.isHeld h) {now : Instant}
    (hdone : (s.react (.request now (.ofGuild h (.cast id voter chosen)))).1 = .answer (.ok .done)) :
    ∃ p, (s.database.tables.slice ⟨h.guild, id⟩).Denotes ⟨h.guild, id⟩ (some p) ∧
      p.checkSelection (.ofList chosen) = .ok () := by
  have hcasting := react_of_isHeld hs.coherent hheld now (.cast id voter chosen)
  obtain ⟨o, ho⟩ := hs.sound ⟨h.guild, id⟩
  cases hserve : s.database.tables.serve h.guild now (.cast id voter chosen) with
  | error e =>
    rw [hserve] at hcasting
    cases hdone.symm.trans hcasting.1
  | ok x =>
    obtain ⟨t, hcast, -⟩ := bind_eq_ok hserve
    obtain ⟨p, rfl, hchecked, -⟩ := Tables.denotes_castAnswers ho hcast
    exact ⟨p, ho, hchecked⟩

/-- For every store in a run, every holder of a lock and every selection, in any order and with repetitions:
A cast is accepted just if the poll is stored, has all the options and allows as many different ones. It is
accepted whenever the ballot check lets the selection through on the poll that is read. Then the selection is
the answer of the voter, in display order. If answers may not be changed, then as long as the poll stays, its
settings stay and nobody casts another selection for the voter, each ballot of that voter is stopped at every
instant at which the poll is open, whatever else is cast or edited. -/
theorem ballots_agree_with_casts (before : List StoreEvent) (h : Handle) (id : PollId) (voter : UserId)
    (chosen : List ChoiceId) (now : Instant) (hheld : (fresh.after before).locks.isHeld h) :
    let s := fresh.after before
    let key : PollKey := ⟨h.guild, id⟩
    let casting := s.react (.request now (.ofGuild h (.cast id voter chosen)))
    (casting.1 = .answer (.ok .done) ↔
      ∃ p, s.Shows key p ∧ (∀ c ∈ chosen, c ∈ p.choices.map (·.id)) ∧
        chosen.dedup.length ≤ p.settings.answersPerUser) ∧
    ∀ p moment, s.Shows key p → p.checkBallot? voter (.ofList chosen) moment = some (.ok ()) →
      casting.1 = .answer (.ok .done) ∧
      (∃ q, casting.2.Shows key q ∧
        q.answersOf voter = (p.choices.map (·.id)).filter (· ∈ chosen) ∧
        ∀ c, c ∈ q.answersOf voter ↔ c ∈ chosen) ∧
      (p.settings.canChange = false →
        ∀ events, casting.2.SparesVote key p.settings ⟨voter, .ofList chosen⟩ events →
          ∃ q, (casting.2.after events).Shows key q ∧
            ∀ selection t, p.hasEnded? t = some false →
              q.checkBallot? voter selection t = some (.error .answerLocked)) := by
  intro s key casting
  have hs : s.InOrder := inOrder_after before
  have hchecks (p : Poll) : p.checkSelection (.ofList chosen) = .ok () ↔
      (∀ c ∈ chosen, c ∈ p.choices.map (·.id)) ∧ chosen.dedup.length ≤ p.settings.answersPerUser := by
    rw [Poll.checkSelection_eq_ok_iff, IdSet.size_ofList]
    simp only [IdSet.mem_ofList]
  obtain ⟨o, ho⟩ := hs.sound key
  refine ⟨⟨fun hdone => ?_, ?_⟩, fun p moment hshown hballot => ?_⟩
  · obtain ⟨p, hp, hchecked⟩ := checkSelection_of_react hs hheld hdone
    exact ⟨p, shows_of_denotes hs.coherent hp, (hchecks p).mp hchecked⟩
  · rintro ⟨p, hshown, hchosen⟩
    obtain rfl := Tables.eq_some_of_fetch ho hshown.1
    exact (react_cast hs hheld ho ((hchecks p).mpr hchosen) voter now).1
  · obtain rfl := Tables.eq_some_of_fetch ho hshown.1
    obtain ⟨-, -, hsome, hchecked⟩ := Poll.checkBallot?_eq_ok_iff.mp hballot
    obtain ⟨hdone, hleft⟩ := react_cast hs hheld ho hchecked voter now
    have hcasting : casting.2.InOrder := hs.react _
    have hkeeps := p.keepsVote_answered ⟨voter, .ofList chosen⟩
    refine ⟨hdone, ⟨_, shows_of_denotes hcasting.coherent hleft, ?_, fun c => ?_⟩,
      fun hlocked events hspares => ?_⟩
    · rw [hkeeps.answers]
      exact List.filter_congr fun c _ => by simp
    · exact (hkeeps.mem_answersOf hchecked).trans IdSet.mem_ofList
    · obtain ⟨q, hq, hkept⟩ := keepsVote_after hcasting hleft hkeeps hspares
      refine ⟨q, shows_of_denotes (hcasting.coherent.after events) hq, fun selection t hopen => ?_⟩
      exact Poll.checkBallot?_of_locked ((hkept.hasEnded? t).trans hopen) (hkept.settings ▸ hlocked)
        (hkept.answersOf_ne_nil hchecked hsome)

def finalLunch : Poll := { Poll.lunch with settings := { Settings.standard with canChange := false } }

def afterBallot : List StoreEvent :=
  [.request .earliest (.ofGuild ⟨1, 0⟩ (.cast 7 9 [2])),
    .request .earliest (.ofGuild ⟨1, 0⟩ (.edit 7 ⟨some "Supper", none, none⟩)),
    .request .earliest .clearCaches]

/-- A voter names an option twice, and may not vote again. -/
theorem ballots_agree_with_casts_of_lunch :
    let s := fresh.after (inserting finalLunch)
    let casting := s.react (.request .earliest (.ofGuild ⟨1, 0⟩ (.cast 7 6 [1, 1])))
    finalLunch.checkBallot? 6 (.ofList [1, 1]) .earliest = some (.ok ()) ∧
      casting.1 = .answer (.ok .done) ∧
      (∃ q, casting.2.Shows ⟨1, 7⟩ q ∧ q.answersOf 6 = [1]) ∧
      ∃ q, (casting.2.after afterBallot).Shows ⟨1, 7⟩ q ∧
        ∀ selection, q.checkBallot? 6 selection .earliest = some (.error .answerLocked) := by
  intro s casting
  have hs : s.InOrder := inOrder_after _
  have hheld : s.locks.isHeld ⟨1, 0⟩ = true := by decide
  have hstored : (s.database.tables.slice ⟨1, 7⟩).Denotes ⟨1, 7⟩ (some finalLunch) :=
    denotes_inserting rfl rfl
  have hballot : finalLunch.checkBallot? 6 (.ofList [1, 1]) .earliest = some (.ok ()) := by decide
  have hevents : ∀ e ∈ afterBallot, e.SparesVote ⟨1, 7⟩ finalLunch.settings ⟨6, .ofList [1, 1]⟩ := by
    intro e he
    simp only [afterBallot, List.mem_cons, List.not_mem_nil, or_false] at he
    rcases he with rfl | rfl | rfl
    · exact fun _ hvoter => absurd hvoter (by decide)
    · exact fun _ _ hnone => nomatch hnone
    · trivial
  obtain ⟨-, hlater⟩ := ballots_agree_with_casts (inserting finalLunch) ⟨1, 0⟩ 7 6 [1, 1] .earliest hheld
  obtain ⟨hdone, ⟨q, hq, hanswers, -⟩, hlocked⟩ :=
    hlater finalLunch .earliest (shows_of_denotes hs.coherent hstored) hballot
  have hchecked : finalLunch.checkSelection (.ofList [1, 1]) = .ok () := by decide
  have hcast := (react_cast hs hheld hstored hchecked 6 .earliest).2
  obtain ⟨q', hq', hstopped⟩ :=
    hlocked rfl afterBallot (sparesVote_of_events (hs.react _).coherent hcast hevents)
  exact ⟨hballot, hdone, ⟨q, hq, hanswers.trans (by decide)⟩, q', hq',
    fun selection => hstopped selection .earliest (by decide)⟩

end Store
end PollKeeper
