import PollKeeper.Proofs.Storage.Faults
import PollKeeper.Proofs.Store.Acknowledgement
import PollKeeper.Proofs.Store.AnswerCap

/-!
# Integrity of the stored data

In every run of a store each row refers to rows that are there, each poll is valid when it is put together
from its rows, and all settings can be decoded. Therefore a request within a guild is answered, or it is
refused for what it asks; it meets no corrupt data and breaks no key.
-/

namespace PollKeeper

open Time StoreAction

/-- A request is refused for what it asks, and neither the stored data nor the database is to blame. -/
inductive StoreError.IsRefusal : StoreError → Prop where
  | notFound : IsRefusal .notFound
  | alreadyExists : IsRefusal .alreadyExists
  | invalid (cause : Refusal) : IsRefusal (.invalid cause)

namespace Tables

variable {t t' : Tables} {key : PollKey} {now : Instant}

def Decodes (t : Tables) : Prop := ∀ row ∈ t.settings, ∃ s, row.toSettings = .ok s

/-- Each row refers to rows that are there, and all of them can be read. -/
structure Intact (t : Tables) : Prop where
  choices : ∀ c ∈ t.choices, ∃ r ∈ t.polls, r.key = c.poll
  answers : ∀ a ∈ t.answers, ∃ c ∈ t.choices, c.poll = a.poll ∧ c.id = a.choice
  polls : ∀ r ∈ t.polls, ∃ p, r.toPoll (t.choicesOf r.key) (t.answersOf r.key) = .ok p ∧
    p.validate = .ok ()
  settings : t.Decodes

theorem decodes_empty : empty.Decodes := nofun

private theorem Decodes.putSettings (h : t.Decodes) (guild : GuildId) (s : Settings) :
    (t.putSettings (.ofSettings guild s)).Decodes := by
  have hnew : ∃ s', (SettingsRow.ofSettings guild s).toSettings = .ok s' := ⟨s, s.ofColumns_self⟩
  intro row hrow
  simp only [Tables.putSettings] at hrow
  split at hrow
  · obtain ⟨old, hold, rfl⟩ := List.mem_map.mp hrow
    split
    · exact hnew
    · exact h old hold
  · rcases List.mem_append.mp hrow with hold | hlast
    · exact h row hold
    · exact List.mem_singleton.mp hlast ▸ hnew

private theorem settings_serve {guild : GuildId} {r : GuildRequest} {a : Answer}
    (h : t.serve guild now r = .ok (a, t')) :
    t'.settings = t.settings ∨ ∃ s, t' = t.putSettings (.ofSettings guild s) := by
  cases r with
  | settings | poll id | lastEdit id =>
    obtain ⟨x, -, hx⟩ := bind_eq_ok h
    cases hx
    exact .inl rfl
  | setSettings s =>
    cases h
    exact .inr ⟨s, rfl⟩
  | insert id p =>
    obtain ⟨x, hx, he⟩ := bind_eq_ok h
    cases he
    obtain ⟨-, rfl⟩ := insertPoll_eq_ok (create_eq_ok hx).2
    exact .inl rfl
  | update id p =>
    obtain ⟨x, hx, he⟩ := bind_eq_ok h
    cases he
    obtain ⟨-, rfl⟩ := modifyRow?_eq_ok (revise_eq_ok hx).2
    exact .inl rfl
  | edit id e =>
    obtain ⟨⟨p, x⟩, hx, he⟩ := bind_eq_ok h
    cases he
    obtain ⟨q, -, -, hrevise⟩ := amend_eq_ok hx
    obtain ⟨-, rfl⟩ := modifyRow?_eq_ok (revise_eq_ok hrevise).2
    exact .inl rfl
  | cast id voter chosen =>
    obtain ⟨x, hx, he⟩ := bind_eq_ok h
    cases he
    obtain ⟨q, -, -, hreplaced⟩ := castAnswers_eq_ok hx
    obtain ⟨added, rfl, -⟩ := replaceAnswers_eq_ok hreplaced
    exact .inl rfl
  | pollIds =>
    cases h
    exact .inl rfl

/-- The options of a poll are those that are stored for it. -/
theorem hasChoice_of_stores {p : Poll} (h : (t.slice p.key).Stores p) {id : ChoiceId} :
    t.hasChoice p.key id = true ↔ id ∈ p.choices.map (·.id) := by
  have hrows : t.choices.filter (·.poll = p.key) = choiceRows p.key p.choices.zipIdx := h.choices
  have hids : (choiceRows p.key p.choices.zipIdx).map (·.id) = p.choices.map (·.id) := by
    rw [choiceRows, List.map_map]
    conv_rhs => rw [← List.zipIdx_map_fst 0 p.choices, List.map_map]
    rfl
  rw [hasChoice_iff, ← hids, ← hrows]
  simp only [List.mem_map, List.mem_filter, decide_eq_true_eq, and_assoc]

/-- Rows that stand for valid polls refer to rows that are there. -/
theorem Sound.intact (ht : t.Sound) (hkeys : t.PrimaryKeys) (hsettings : t.Decodes) : t.Intact where
  choices c hc := by
    obtain ⟨o, ho⟩ := ht c.poll
    have hmem : c ∈ (t.slice c.poll).choices := List.mem_filter.mpr ⟨hc, by simp⟩
    cases o with
    | none =>
      rw [ho.2.1] at hmem
      cases hmem
    | some p =>
      obtain ⟨r, hr, -⟩ := Option.map_eq_some_iff.mp ho.2.row
      exact ⟨r, mem_of_row? hr, key_of_row? hr⟩
  answers a ha := by
    obtain ⟨poll, choice, user⟩ := a
    obtain ⟨o, ho⟩ := ht poll
    have hmem : ⟨poll, choice, user⟩ ∈ (t.slice poll).answers := List.mem_filter.mpr ⟨ha, by simp⟩
    cases o with
    | none =>
      rw [ho.2.2] at hmem
      cases hmem
    | some p =>
      obtain ⟨rfl, hstores⟩ := ho
      obtain ⟨c, hc, rfl, -⟩ := Poll.mem_answersOf.mp ((hstores.answers choice user).mp hmem)
      exact hasChoice_iff.mp ((hasChoice_of_stores hstores).mpr (List.mem_map_of_mem hc))
  polls r hr := by
    have hrow := row?_of_mem hkeys.polls hr
    obtain ⟨o, ho⟩ := ht r.key
    obtain ⟨p, rfl⟩ := ho.isSome hrow
    have hread := poll?_of_denotes ho
    simp only [poll?, hrow] at hread
    refine ⟨p, ?_, Poll.validate_eq_ok_iff.mpr ho.2.valid⟩
    cases hp : r.toPoll (t.choicesOf r.key) (t.answersOf r.key) with
    | error e =>
      rw [hp] at hread
      cases hread
    | ok q =>
      rw [hp] at hread
      cases hread
      rfl
  settings := hsettings

variable {e : StoreError} {p : Poll}

theorem isRefusal_fetch (ht : t.Sound) (h : (t.fetch key).mapError .ofStorage = .error e) :
    e.IsRefusal := by
  obtain ⟨o, ho⟩ := ht key
  rw [fetch, poll?_of_denotes ho] at h
  cases o with
  | none =>
    cases h
    exact .notFound
  | some p => cases h

theorem isRefusal_validate {α : Type} {r : Except PollError α}
    (h : r.mapError (fun e => StoreError.invalid (.poll e)) = .error e) : e.IsRefusal := by
  obtain ⟨fault, -, rfl⟩ := mapError_eq_error h
  exact .invalid _

theorem admits_new (h : (t.slice key).Denotes key none) {ids : List ChoiceId} (hids : ids.Nodup) :
    t.Admits key ids := by
  refine ⟨hids, fun id _ => Bool.eq_false_iff.mpr fun hid => ?_⟩
  obtain ⟨c, hc, hkey, -⟩ := hasChoice_iff.mp hid
  exact List.filter_eq_nil_iff.mp h.2.1 c hc (by simpa using hkey)

private theorem isRefusal_create (ht : t.Sound) (h : t.create key p now = .error e) : e.IsRefusal := by
  rcases bind_eq_error h with hinvalid | ⟨_, hvalid, hinsert⟩
  · exact isRefusal_validate hinvalid
  obtain ⟨fault, hfault, rfl⟩ := mapError_eq_error hinsert
  rw [insertPoll_eq] at hfault
  split at hfault
  · cases hfault
    exact .alreadyExists
  · next hnew =>
    obtain ⟨o, ho⟩ := ht key
    obtain rfl := ho.eq_none (Option.not_isSome_iff_eq_none.mp hnew)
    have hp := Poll.validate_eq_ok_iff.mp (mapError_eq_ok hvalid)
    have hkey : (p.under key).key = key := rfl
    rw [hkey, if_pos (admits_new ho hp.ids)] at hfault
    cases hfault

theorem isRefusal_revise (h : t.revise key p now = .error e) : e.IsRefusal := by
  rcases bind_eq_error h with hinvalid | ⟨_, -, hupdate⟩
  · exact isRefusal_validate hinvalid
  obtain ⟨fault, hfault, rfl⟩ := mapError_eq_error hupdate
  simp only [updatePoll, modifyRow?] at hfault
  split at hfault
  · cases hfault
  · cases hfault
    exact .notFound

private theorem isRefusal_amend (ht : t.Sound) {change : Edit} (h : t.amend key change now = .error e) :
    e.IsRefusal := by
  rcases bind_eq_error h with hfetch | ⟨q, -, h⟩
  · exact isRefusal_fetch ht hfetch
  rcases bind_eq_error h with hinvalid | ⟨p, -, h⟩
  · exact isRefusal_validate hinvalid
  rcases bind_eq_error h with hrevise | ⟨t', -, h⟩
  · exact isRefusal_revise hrevise
  · cases h

/-- A selection from the options of a stored poll can be stored. -/
theorem exists_castAnswers {q : Poll} (hq : (t.slice key).Denotes key (some q)) {chosen : IdSet}
    (hchecked : q.checkSelection chosen = .ok ()) (voter : UserId) (now : Instant) :
    ∃ t', t.castAnswers key voter chosen now = .ok t' := by
  have hfetch := fetch_of_denotes hq
  obtain ⟨rfl, hstores⟩ := hq
  have hknown := (Poll.checkSelection_eq_ok_iff.mp hchecked).1
  obtain ⟨r, hr, -⟩ := Option.map_eq_some_iff.mp hstores.row
  have hrow : t.row? q.key = some r := hr
  have hfault : (PollChange.answer q.key voter chosen.toList).fault? t = none := by
    have hall : chosen.toList.all (t.hasChoice q.key) = true :=
      List.all_eq_true.mpr fun id hid => (hasChoice_of_stores hstores).mpr (hknown id hid)
    simp only [PollChange.fault?, hrow, hall, Option.isNone_some, if_true, Bool.false_eq_true, if_false]
  obtain ⟨t', hreplaced⟩ := PollChange.apply_of_no_fault hfault now.millis
  have hreplaced' : t.replaceAnswers q.key voter chosen.toList now.millis = .ok t' := hreplaced
  have hcast : t.castAnswers q.key voter chosen now = (do
      (q.checkSelection chosen).mapError fun r => .invalid (.ballot r)
      (t.replaceAnswers q.key voter chosen.toList now.millis).mapError .ofStorage) := by
    rw [castAnswers, hfetch]
    rfl
  rw [hcast, hchecked, hreplaced']
  exact ⟨t', rfl⟩

private theorem isRefusal_castAnswers (ht : t.Sound) {voter : UserId} {chosen : IdSet}
    (h : t.castAnswers key voter chosen now = .error e) : e.IsRefusal := by
  obtain ⟨o, ho⟩ := ht key
  rcases bind_eq_error h with hfetch | ⟨q, hfetch, hrest⟩
  · exact isRefusal_fetch ht hfetch
  rcases bind_eq_error hrest with hinvalid | ⟨_, hchecked, -⟩
  · obtain ⟨r, -, rfl⟩ := mapError_eq_error hinvalid
    exact .invalid _
  obtain rfl := eq_some_of_fetch ho (mapError_eq_ok hfetch)
  obtain ⟨t', hcast⟩ := exists_castAnswers ho (mapError_eq_ok hchecked) voter now
  rw [hcast] at h
  cases h

private theorem isRefusal_latestEdit
    (hstamps : ∀ r ∈ t.polls, (Instant.ofMillis? r.editedAt).isSome = true)
    (h : t.latestEdit key = .error e) : e.IsRefusal := by
  simp only [latestEdit, stamp?] at h
  cases hr : t.row? key with
  | none =>
    rw [hr] at h
    cases h
    exact .notFound
  | some r =>
    rw [hr] at h
    obtain ⟨edited, hedited⟩ := Option.isSome_iff_exists.mp (hstamps r (mem_of_row? hr))
    simp only [Option.map_some, PollEdit.ofStamp, hedited] at h
    cases h

theorem exists_settingsOf (h : t.Decodes) (guild : GuildId) : ∃ s, t.settingsOf guild = .ok s := by
  simp only [settingsOf]
  cases hrow : t.settingsRow? guild with
  | none => exact ⟨_, rfl⟩
  | some row => exact h row (List.mem_of_find?_eq_some hrow)

theorem isRefusal_serve (ht : t.Sound) (hsettings : t.Decodes)
    (hstamps : ∀ r ∈ t.polls, (Instant.ofMillis? r.editedAt).isSome = true) {guild : GuildId}
    {r : GuildRequest} (h : t.serve guild now r = .error e) : e.IsRefusal := by
  cases r with
  | settings =>
    obtain ⟨s, hs⟩ := exists_settingsOf hsettings guild
    simp only [serve, hs] at h
    cases h
  | setSettings s | pollIds => cases h
  | poll id =>
    rcases bind_eq_error h with hfetch | ⟨p, -, h⟩
    · exact isRefusal_fetch ht hfetch
    · cases h
  | insert id p =>
    rcases bind_eq_error h with hcreate | ⟨t', -, h⟩
    · exact isRefusal_create ht hcreate
    · cases h
  | update id p =>
    rcases bind_eq_error h with hrevise | ⟨t', -, h⟩
    · exact isRefusal_revise hrevise
    · cases h
  | edit id change =>
    rcases bind_eq_error h with hamend | ⟨x, -, h⟩
    · exact isRefusal_amend ht hamend
    · cases h
  | cast id voter chosen =>
    rcases bind_eq_error h with hcast | ⟨x, -, h⟩
    · exact isRefusal_castAnswers ht hcast
    · cases h
  | lastEdit id =>
    rcases bind_eq_error h with hread | ⟨edited, -, h⟩
    · exact isRefusal_latestEdit hstamps hread
    · cases h

end Tables

private theorem DirectStore.decodes_react (s : DirectStore) (e : StoreEvent) (hs : s.tables.Decodes) :
    (s.react e).2.tables.Decodes := by
  have hsame : ∀ {t : Tables}, t.settings = s.tables.settings → t.Decodes :=
    fun ht row hrow => hs row (ht ▸ hrow)
  cases e with
  | request now r =>
    cases r with
    | ofGuild h r =>
      simp only [react, answer]
      split
      · cases hr : s.tables.serve h.guild now r with
        | error e => exact hs
        | ok x =>
          rcases Tables.settings_serve hr with hsettings | ⟨v, hput⟩
          · exact hsame hsettings
          · exact (congrArg Tables.Decodes hput).mpr (hs.putSettings h.guild v)
      · exact hs
    | deleteExpired before => exact deleteExpired_keeps (fun _ _ _ ht => ht) s before hs
    | markFinal keys => exact hsame (s.tables.sameContent_markFinal keys).settings
    | markSeen edits => exact hsame (s.tables.sameContent_markSeen _).settings
    | persist keys => exact hsame (s.tables.sameContent_savePending keys).settings
    | takePersisted guild => exact hs
    | editedSince cutoff =>
      simp only [react, answer]
      cases (s.tables.unseenSince cutoff.millis).mapM PollEdit.ofStamp <;> exact hs
    | endedUnrefreshed _ | clearCaches => exact hs
  | acquire _ | acquireUnless _ _ | wait _ | giveUp _ | release _ | evict _ _ _ => exact hs

namespace Store

variable {events : List StoreEvent}

private theorem decodes_after (events : List StoreEvent) : (fresh.after events).database.tables.Decodes :=
  tables_after Tables.decodes_empty DirectStore.decodes_react events

/-- In every run the stored data can be read, and all of it. As long as the clock shows no time past the
last representable instant, the holder of a lock is answered or refused for what is asked. -/
theorem never_corrupt (events : List StoreEvent) :
    (fresh.after events).database.tables.Intact ∧
      ((∀ now req, StoreEvent.request now req ∈ events → now ≤ .latest) →
        ∀ now h r e, (fresh.after events).locks.isHeld h →
          ((answer now (.ofGuild h r)).outcome (fresh.after events)).1 = .error e → e.IsRefusal) := by
  have hsound := sound_after events
  have hsettings := decodes_after events
  refine ⟨hsound.intact (primaryKeys_after events) hsettings, fun hclock now h r e hheld herror => ?_⟩
  have hstamps : ∀ r ∈ (fresh.after events).database.tables.polls,
      (Instant.ofMillis? r.editedAt).isSome = true := by
    intro r hr
    obtain ⟨read, req, hreq, hread⟩ := clock_of_mem_polls hr
    exact hread ▸ Instant.isSome_ofMillis?_millis (hclock read req hreq)
  rw [outcome_answer_of_isHeld hheld,
    ((serves_answerIn h.guild now r).leaves (coherent_after events)).result] at herror
  cases hserve : (fresh.after events).database.tables.serve h.guild now r with
  | error e' =>
    rw [hserve] at herror
    cases herror
    exact Tables.isRefusal_serve hsound hsettings hstamps hserve
  | ok x =>
    rw [hserve] at herror
    cases herror

/-- A poll is inserted a second time. -/
theorem never_corrupt_of_again :
    let s := fresh.after (inserting .lunch)
    let again := Request.ofGuild ⟨1, 0⟩ (.insert 7 .lunch)
    s.database.tables.Intact ∧ ((answer .earliest again).outcome s).1 = .error .alreadyExists ∧
      StoreError.alreadyExists.IsRefusal := by
  intro s again
  have hclock : ∀ now req, StoreEvent.request now req ∈ inserting .lunch → now ≤ .latest := by
    intro now req hreq
    simp only [inserting, List.mem_cons, reduceCtorEq, StoreEvent.request.injEq, false_or,
      List.not_mem_nil, or_false] at hreq
    obtain ⟨rfl, -⟩ := hreq
    decide
  have hfails : ((answer .earliest again).outcome s).1.map (fun _ => ()) = .error .alreadyExists := by
    decide +kernel
  have hrefused : ((answer .earliest again).outcome s).1 = .error .alreadyExists := by
    cases hr : ((answer .earliest again).outcome s).1 with
    | error e =>
      rw [hr] at hfails
      exact congrArg Except.error (Except.error.inj hfails)
    | ok a =>
      rw [hr] at hfails
      cases hfails
  obtain ⟨hintact, hrefusals⟩ := never_corrupt (inserting .lunch)
  exact ⟨hintact, hrefused, hrefusals hclock .earliest ⟨1, 0⟩ _ _ (by decide) hrefused⟩

end Store
end PollKeeper
