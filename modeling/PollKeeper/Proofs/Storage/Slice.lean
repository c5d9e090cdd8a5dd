import PollKeeper.Storage.Tables

/-!
# The rows of one poll

What the tables hold about a single poll, and what each change of the tables does to it. A change
that is meant for one poll leaves the rows of all others as they were; acknowledgements leave
everything from which a poll is put together.
-/

namespace PollKeeper

open Time

theorem mapError_eq_ok {ε δ α : Type} {f : ε → δ} {r : Except ε α} {x : α}
    (h : r.mapError f = .ok x) : r = .ok x := by
  cases r with
  | error e => cases h
  | ok y => exact congrArg Except.ok (Except.ok.inj h)

theorem bind_eq_ok {ε α β : Type} {r : Except ε α} {f : α → Except ε β} {y : β}
    (h : r >>= f = .ok y) : ∃ x, r = .ok x ∧ f x = .ok y := by
  cases r with
  | error e => cases h
  | ok x => exact ⟨x, rfl, h⟩

theorem bind_eq_error {ε α β : Type} {r : Except ε α} {f : α → Except ε β} {e : ε}
    (h : r >>= f = .error e) : r = .error e ∨ ∃ x, r = .ok x ∧ f x = .error e := by
  cases r with
  | error e' => exact .inl (congrArg Except.error (Except.error.inj h))
  | ok x => exact .inr ⟨x, rfl, h⟩

theorem mapError_eq_error {ε δ α : Type} {f : ε → δ} {r : Except ε α} {e : δ}
    (h : r.mapError f = .error e) : ∃ e', r = .error e' ∧ f e' = e := by
  cases r with
  | error e' => exact ⟨e', rfl, Except.error.inj h⟩
  | ok x => cases h

/-- All that is stored about one poll. -/
structure PollSlice where
  row : Option PollRow
  choices : List ChoiceRow
  answers : List AnswerRow
  pending : Bool

def PollSlice.nothing : PollSlice := ⟨none, [], [], false⟩

namespace Tables

variable {t t' : Tables} {key other : PollKey}

def slice (t : Tables) (key : PollKey) : PollSlice :=
  ⟨t.row? key, t.choices.filter (·.poll = key), t.answersOf key, t.pending.contains key⟩

theorem poll?_congr (h : t.slice key = t'.slice key) : t.poll? key = t'.poll? key := by
  obtain ⟨hr, hc, ha, -⟩ := PollSlice.mk.inj h
  simp only [poll?, choicesOf, hr, hc, ha]

theorem mem_pending_congr (h : t.slice key = t'.slice key) :
    key ∈ t.pending ↔ key ∈ t'.pending := by
  have hpending : t.pending.contains key = t'.pending.contains key := congrArg PollSlice.pending h
  rw [← List.contains_iff_mem, hpending, List.contains_iff_mem]

theorem fetch_congr (h : t.poll? key = t'.poll? key) : t.fetch key = t'.fetch key := by
  simp only [fetch, h]

theorem settingsRow?_putSettings (t : Tables) (row : SettingsRow) (guild : GuildId) :
    (t.putSettings row).settingsRow? guild =
      if guild = row.guild then some row else t.settingsRow? guild := by
  simp only [settingsRow?, putSettings]
  split
  · next hany =>
    have hguild : ∀ r : SettingsRow, (if r.guild = row.guild then row else r).guild = r.guild := by
      intro r
      split
      · next h => exact h.symm
      · rfl
    have hfind : (t.settings.map fun r => if r.guild = row.guild then row else r).find?
        (·.guild = guild) = (t.settings.find? (·.guild = guild)).map
          fun r => if r.guild = row.guild then row else r := by
      rw [List.find?_map]
      congr 2
      funext r
      simp only [Function.comp_apply, hguild]
    rw [hfind]
    cases hr : t.settings.find? (·.guild = guild) with
    | none =>
      have hne : guild ≠ row.guild := by
        rintro rfl
        obtain ⟨r, hmem, hrg⟩ := List.any_eq_true.mp hany
        exact List.find?_eq_none.mp hr r hmem hrg
      simp [hne]
    | some r =>
      have hrg : r.guild = guild := by simpa using List.find?_some hr
      by_cases h : guild = row.guild <;> simp [h, hrg]
  · next hany =>
    rw [List.find?_append]
    by_cases h : guild = row.guild
    · subst h
      have hnone : t.settings.find? (·.guild = row.guild) = none := by
        refine List.find?_eq_none.mpr fun r hr hrg => hany ?_
        exact List.any_eq_true.mpr ⟨r, hr, hrg⟩
      simp [hnone]
    · simp [h, Ne.symm h]

theorem key_of_row? {r : PollRow} (h : t.row? key = some r) : r.key = key := by
  simpa using List.find?_some h

theorem mem_of_row? {r : PollRow} (h : t.row? key = some r) : r ∈ t.polls :=
  List.mem_of_find?_eq_some h

theorem row?_eq_none_iff : t.row? key = none ↔ ∀ r ∈ t.polls, r.key ≠ key := by
  simp [row?, List.find?_eq_none]

theorem find?_key_eq_some_iff {α κ : Type} [DecidableEq κ] {f : α → κ} {rows : List α}
    (hkeys : (rows.map f).Nodup) {k : κ} {r : α} :
    rows.find? (f · = k) = some r ↔ r ∈ rows ∧ f r = k := by
  induction rows with
  | nil => simp
  | cons first rest ih =>
    obtain ⟨hnew, hrest⟩ := List.nodup_cons.mp hkeys
    rw [List.find?_cons, List.mem_cons]
    by_cases hk : f first = k
    · have hothers : ¬ (r ∈ rest ∧ f r = k) := fun ⟨hr, hrk⟩ =>
        hnew (List.mem_map.mpr ⟨r, hr, hrk.trans hk.symm⟩)
      simp only [hk, decide_true, Option.some.injEq, or_and_right, hothers, or_false]
      exact ⟨fun h => ⟨h.symm, h ▸ hk⟩, fun h => h.1.symm⟩
    · simp only [hk, decide_false, ih hrest]
      refine ⟨fun h => ⟨.inr h.1, h.2⟩, fun h => ⟨h.1.resolve_left ?_, h.2⟩⟩
      rintro rfl
      exact hk h.2

theorem row?_of_mem (hk : (t.polls.map (·.key)).Nodup) {r : PollRow} (hr : r ∈ t.polls) :
    t.row? r.key = some r :=
  (find?_key_eq_some_iff hk).mpr ⟨hr, rfl⟩

def KeepsKey (f : PollRow → PollRow) : Prop := ∀ r, (f r).key = r.key

theorem keepsKey_withDetails (title description : String) (s : Settings) (editedAt : Int) :
    KeepsKey (·.withDetails title description s editedAt) := fun _ => rfl

theorem keepsKey_withSeen (edit : Int) : KeepsKey (·.withSeen edit) := by
  intro r
  simp only [PollRow.withSeen]
  split
  · rfl
  · split <;> rfl

theorem row?_modifyRow {f : PollRow → PollRow} (hf : KeepsKey f) (t : Tables)
    (key other : PollKey) :
    (t.modifyRow key f).row? other =
      if other = key then (t.row? key).map f else t.row? other := by
  have hkey : ∀ r : PollRow, (if r.key = key then f r else r).key = r.key := by
    intro r
    split
    · exact hf r
    · rfl
  have hmap : (t.modifyRow key f).row? other =
      (t.row? other).map fun r => if r.key = key then f r else r := by
    simp only [row?, modifyRow, List.find?_map]
    congr 2
    funext r
    simp only [Function.comp_apply, hkey]
  rw [hmap]
  cases hr : t.row? other with
  | none =>
    split
    · next h => subst h; simp [hr]
    · rfl
  | some r =>
    have hk := key_of_row? hr
    split
    · next h => subst h; simp [hr, hk]
    · next h => simp [hk, h]

theorem keys_modifyRow {f : PollRow → PollRow} (hf : KeepsKey f) (t : Tables) (key : PollKey) :
    (t.modifyRow key f).polls.map (·.key) = t.polls.map (·.key) := by
  simp only [modifyRow, List.map_map]
  apply List.map_congr_left
  intro r _
  simp only [Function.comp_apply]
  split
  · exact hf r
  · rfl

theorem slice_modifyRow {f : PollRow → PollRow} (hf : KeepsKey f) (t : Tables)
    (key other : PollKey) :
    (t.modifyRow key f).slice other =
      if other = key then { t.slice key with row := (t.row? key).map f } else t.slice other := by
  simp only [slice, row?_modifyRow hf]
  split
  · next h => subst h; rfl
  · rfl

theorem modifyRow?_eq_ok {f : PollRow → PollRow} (h : t.modifyRow? key f = .ok t') :
    (∃ r, t.row? key = some r) ∧ t' = t.modifyRow key f := by
  simp only [modifyRow?] at h
  split at h
  · next hr => exact ⟨Option.isSome_iff_exists.mp hr, (Except.ok.inj h).symm⟩
  · cases h

def choiceRows (key : PollKey) (placed : List (Choice × Nat)) : List ChoiceRow :=
  placed.map fun (c, i) => ⟨key, c.id, i, c.name⟩

def answerRows (key : PollKey) (placed : List (Choice × Nat)) : List AnswerRow :=
  placed.flatMap fun (c, _) => c.voters.toList.map (⟨key, c.id, ·⟩)

private theorem insertChoices_eq_ok {placed : List (Choice × Nat)}
    (h : placed.foldlM (fun t (c, i) => t.insertChoice key i c) t = .ok t') :
    t' = { t with
      choices := t.choices ++ choiceRows key placed
      answers := t.answers ++ answerRows key placed } := by
  induction placed generalizing t with
  | nil =>
    cases h
    simp [choiceRows, answerRows]
  | cons first rest ih =>
    obtain ⟨c, i⟩ := first
    simp only [List.foldlM_cons, insertChoice] at h
    split at h
    · cases h
    · rw [ih h]
      simp [choiceRows, answerRows]

def withPoll (t : Tables) (p : Poll) (editedAt : Int) : Tables :=
  { t with
    polls := t.polls ++ [.ofPoll p editedAt]
    choices := t.choices ++ choiceRows p.key p.choices.zipIdx
    answers := t.answers ++ answerRows p.key p.choices.zipIdx }

theorem insertPoll_eq_ok {p : Poll} {editedAt : Int} (h : t.insertPoll p editedAt = .ok t') :
    t.row? p.key = none ∧ t' = t.withPoll p editedAt := by
  simp only [insertPoll] at h
  split at h
  · cases h
  · next hr => exact ⟨Option.not_isSome_iff_eq_none.mp hr, insertChoices_eq_ok h⟩

private theorem filter_choiceRows (placed : List (Choice × Nat)) :
    (choiceRows key placed).filter (·.poll = other) =
      if other = key then choiceRows key placed else [] := by
  have hmem : ∀ c ∈ choiceRows key placed, c.poll = key := by
    intro c hc
    obtain ⟨_, _, rfl⟩ := List.mem_map.mp hc
    rfl
  split
  · next h => exact List.filter_eq_self.mpr fun c hc => by simp [hmem c hc, h]
  · next h => exact List.filter_eq_nil_iff.mpr fun c hc => by simpa [hmem c hc] using Ne.symm h

private theorem filter_answerRows (placed : List (Choice × Nat)) :
    (answerRows key placed).filter (·.poll = other) =
      if other = key then answerRows key placed else [] := by
  have hmem : ∀ a ∈ answerRows key placed, a.poll = key := by
    intro a ha
    simp only [answerRows, List.mem_flatMap, List.mem_map] at ha
    obtain ⟨_, _, _, _, rfl⟩ := ha
    rfl
  split
  · next h => exact List.filter_eq_self.mpr fun a ha => by simp [hmem a ha, h]
  · next h => exact List.filter_eq_nil_iff.mpr fun a ha => by simpa [hmem a ha] using Ne.symm h

theorem row?_withPoll (t : Tables) (p : Poll) (editedAt : Int) (hnew : t.row? p.key = none) :
    (t.withPoll p editedAt).row? other =
      if other = p.key then some (.ofPoll p editedAt) else t.row? other := by
  simp only [row?, withPoll, List.find?_append]
  split
  · next h =>
    subst h
    simp only [row?] at hnew
    simp [hnew, PollRow.ofPoll]
  · next h =>
    have : ¬ p.key = other := fun he => h he.symm
    simp [PollRow.ofPoll, this]

/-- A new poll has its own rows only beside what was stored under its key. -/
theorem slice_withPoll (t : Tables) (p : Poll) (editedAt : Int) (hnew : t.row? p.key = none) :
    (t.withPoll p editedAt).slice other =
      if other = p.key then
        ⟨some (.ofPoll p editedAt),
          (t.slice other).choices ++ choiceRows p.key p.choices.zipIdx,
          (t.slice other).answers ++ answerRows p.key p.choices.zipIdx, (t.slice other).pending⟩
      else t.slice other := by
  simp only [slice, row?_withPoll t p editedAt hnew, answersOf]
  simp only [withPoll, List.filter_append, filter_choiceRows, filter_answerRows]
  split <;> simp

theorem pollIds_withPoll (t : Tables) (p : Poll) (editedAt : Int) {guild : GuildId}
    (h : guild ≠ p.guild) : (t.withPoll p editedAt).pollIds guild = t.pollIds guild := by
  simp [pollIds, withPoll, PollRow.ofPoll, Poll.key, Ne.symm h]

private theorem insertAnswers_eq_ok {user : UserId} {chosen : List ChoiceId}
    (h : chosen.foldlM (fun t id => t.insertAnswer ⟨key, id, user⟩) t = .ok t') :
    ∃ added, t' = { t with answers := t.answers ++ added } ∧
      (∀ a ∈ added, ∃ id ∈ chosen, a = ⟨key, id, user⟩) ∧
      ∀ id ∈ chosen, ⟨key, id, user⟩ ∈ t.answers ++ added := by
  induction chosen generalizing t with
  | nil =>
    cases h
    exact ⟨[], by simp⟩
  | cons first rest ih =>
    simp only [List.foldlM_cons, insertAnswer] at h
    split at h
    · next hmem =>
      obtain ⟨added, rfl, hadded, hall⟩ := ih h
      refine ⟨added, rfl, fun a ha => ?_, fun id hid => ?_⟩
      · obtain ⟨id, hid, rfl⟩ := hadded a ha
        exact ⟨id, List.mem_cons_of_mem _ hid, rfl⟩
      · rcases List.mem_cons.mp hid with rfl | hid
        · exact List.mem_append_left _ hmem
        · exact hall id hid
    · split at h
      · obtain ⟨added, rfl, hadded, hall⟩ := ih h
        refine ⟨⟨key, first, user⟩ :: added, by simp, fun a ha => ?_, fun id hid => ?_⟩
        · rcases List.mem_cons.mp ha with rfl | ha
          · exact ⟨first, List.mem_cons_self, rfl⟩
          · obtain ⟨id, hid, rfl⟩ := hadded a ha
            exact ⟨id, List.mem_cons_of_mem _ hid, rfl⟩
        · rcases List.mem_cons.mp hid with rfl | hid
          · simp
          · simpa using hall id hid
      · cases h

theorem replaceAnswers_eq_ok {user : UserId} {chosen : List ChoiceId} {editedAt : Int}
    (h : t.replaceAnswers key user chosen editedAt = .ok t') :
    ∃ added, t' = { t.modifyRow key ({ · with editedAt }) with
        answers := (t.withdraw key user).answers ++ added } ∧
      (∃ r, t.row? key = some r) ∧ (∀ a ∈ added, ∃ id ∈ chosen, a = ⟨key, id, user⟩) ∧
      ∀ id ∈ chosen, ⟨key, id, user⟩ ∈ added := by
  simp only [replaceAnswers] at h
  cases hm : t.modifyRow? key ({ · with editedAt }) with
  | error e => rw [hm] at h; cases h
  | ok u =>
    rw [hm] at h
    obtain ⟨hrow, rfl⟩ := modifyRow?_eq_ok hm
    obtain ⟨added, rfl, hadded, hall⟩ := insertAnswers_eq_ok h
    refine ⟨added, rfl, hrow, hadded, fun id hid => ?_⟩
    rcases List.mem_append.mp (hall id hid) with hold | hnew
    · simp [withdraw] at hold
    · exact hnew

theorem slice_replaceAnswers {user : UserId} {chosen : List ChoiceId} {editedAt : Int}
    (h : t.replaceAnswers key user chosen editedAt = .ok t') (hne : other ≠ key) :
    t'.slice other = t.slice other := by
  obtain ⟨added, rfl, -, hadded, -⟩ := replaceAnswers_eq_ok h
  have hrow := row?_modifyRow (f := fun r => { r with editedAt }) (fun _ => rfl) t key other
  rw [if_neg hne] at hrow
  have hold : (t.withdraw key user).answers.filter (·.poll = other) = t.answersOf other := by
    simp only [withdraw, answersOf, List.filter_filter]
    apply List.filter_congr
    intro a _
    by_cases ha : a.poll = other <;> simp [ha, hne]
  have hnew : added.filter (·.poll = other) = [] := by
    apply List.filter_eq_nil_iff.mpr
    intro a ha
    obtain ⟨id, -, rfl⟩ := hadded a ha
    simpa using Ne.symm hne
  simp only [slice, answersOf, List.filter_append, hold, hnew, List.append_nil]
  exact congrArg (PollSlice.mk · _ _ _) hrow

theorem slice_removePoll (t : Tables) (key other : PollKey) :
    (t.removePoll key).slice other = if other = key then .nothing else t.slice other := by
  split
  · next h =>
    subst h
    have hrow : (t.removePoll other).row? other = none :=
      row?_eq_none_iff.mpr fun r hr => by simpa using (List.mem_filter.mp hr).2
    simp only [slice, hrow, answersOf, PollSlice.nothing]
    simp [removePoll, List.filter_filter]
  · next h =>
    have hrow : (t.removePoll key).row? other = t.row? other := by
      simp only [row?, removePoll, List.find?_filter]
      congr 1
      funext r
      by_cases hr : r.key = other <;> simp [hr, h]
    have hfilter : ∀ {α : Type} (f : α → PollKey) (rows : List α),
        (rows.filter (f · ≠ key)).filter (f · = other) = rows.filter (f · = other) := by
      intro α f rows
      rw [List.filter_filter]
      apply List.filter_congr
      intro a _
      by_cases ha : f a = other <;> simp [ha, h]
    simp only [slice, hrow, answersOf]
    simp only [removePoll, hfilter ChoiceRow.poll, hfilter AnswerRow.poll]
    congr 1
    simp [List.contains_eq_mem, h]

theorem pollIds_removePoll (t : Tables) (key : PollKey) {guild : GuildId}
    (h : guild ≠ key.guild) : (t.removePoll key).pollIds guild = t.pollIds guild := by
  have hkeys : ((t.removePoll key).polls.map (·.key)).filter (·.guild = guild) =
      (t.polls.map (·.key)).filter (·.guild = guild) := by
    simp only [removePoll, List.filter_map, List.filter_filter]
    congr 1
    apply List.filter_congr
    intro r _
    by_cases hr : r.key = key
    · simp [hr, Ne.symm h]
    · simp [hr]
  simp only [pollIds, hkeys]

theorem removeEnded_eq (t : Tables) (key : PollKey) (cutoff : Int) :
    t.removeEnded key cutoff =
      if (t.row? key).any (·.endedBefore cutoff) then (true, t.removePoll key) else (false, t) := by
  simp only [removeEnded]
  cases t.row? key <;> rfl

/-- The same polls and default settings, whatever was noted about edits and refreshes. -/
structure SameContent (t t' : Tables) : Prop where
  poll? : ∀ key, t'.poll? key = t.poll? key
  keys : t'.polls.map (·.key) = t.polls.map (·.key)
  settings : t'.settings = t.settings

theorem SameContent.refl (t : Tables) : SameContent t t := ⟨fun _ => rfl, rfl, rfl⟩

theorem SameContent.trans {u : Tables} (h : SameContent t t') (h' : SameContent t' u) :
    SameContent t u :=
  ⟨fun key => (h'.poll? key).trans (h.poll? key), h'.keys.trans h.keys,
    h'.settings.trans h.settings⟩

/-- A change of a row that leaves its key and the poll it stands for. -/
structure Invisible (f : PollRow → PollRow) : Prop where
  keepsKey : KeepsKey f
  toPoll : ∀ r choices answers, (f r).toPoll choices answers = r.toPoll choices answers

private theorem invisible_withSeen (edit : Int) : Invisible (·.withSeen edit) := by
  refine ⟨keepsKey_withSeen edit, fun r choices answers => ?_⟩
  simp only [PollRow.withSeen]
  split
  · rfl
  · split <;> rfl

theorem invisible_finalRefreshed (n : Int) : Invisible ({ · with finalRefreshed := n }) :=
  ⟨fun _ => rfl, fun _ _ _ => rfl⟩

private theorem sameContent_modifyRow {f : PollRow → PollRow} (hf : Invisible f) (t : Tables)
    (key : PollKey) : SameContent t (t.modifyRow key f) := by
  refine ⟨fun other => ?_, keys_modifyRow hf.keepsKey t key, rfl⟩
  have hchoices : (t.modifyRow key f).choicesOf other = t.choicesOf other := rfl
  have hanswers : (t.modifyRow key f).answersOf other = t.answersOf other := rfl
  simp only [Tables.poll?, row?_modifyRow hf.keepsKey, hchoices, hanswers]
  by_cases h : other = key
  · subst h
    rw [if_pos rfl]
    cases t.row? other with
    | none => rfl
    | some r => simp only [Option.map_some, hf.toPoll]
  · rw [if_neg h]

theorem sameContent_modifyRowIf {f : PollRow → PollRow} (hf : Invisible f) (t : Tables)
    (key : PollKey) (p : PollRow → Bool) : SameContent t (t.modifyRowIf key p f).2 := by
  simp only [modifyRowIf]
  split
  · split
    · exact sameContent_modifyRow hf t key
    · exact .refl t
  · exact .refl t

/-- What every single change keeps, a list of them keeps. -/
theorem countChanges_keeps {α : Type} {change : Tables → α → Nat × Tables} {P : Tables → Prop}
    (hstep : ∀ t a, P t → P (change t a).2) (items : List α) {t : Tables} (h : P t) :
    P (countChanges change t items).2 := by
  have hfold : ∀ (n : Nat) (t : Tables), P t →
      P (items.foldl (fun r item => (r.1 + (change r.2 item).1, (change r.2 item).2)) (n, t)).2 := by
    induction items with
    | nil => exact fun _ _ h => h
    | cons a rest ih => exact fun n t h => ih _ _ (hstep t a h)
  exact hfold 0 t h

theorem sameContent_markFinal (t : Tables) (keys : List PollKey) :
    SameContent t (t.markFinal keys).2 :=
  countChanges_keeps (P := SameContent t)
    (fun u key h => h.trans (sameContent_modifyRowIf (invisible_finalRefreshed 1) u key _)) keys
    (.refl t)

theorem sameContent_markSeen (t : Tables) (edits : List EditStamp) :
    SameContent t (t.markSeen edits).2 :=
  countChanges_keeps (P := SameContent t)
    (fun u edit h => h.trans (sameContent_modifyRowIf (invisible_withSeen edit.editedAt) u _ _))
    edits (.refl t)

theorem sameContent_pending (t : Tables) (keys : List PollKey) :
    SameContent t { t with pending := keys } := ⟨fun _ => rfl, rfl, rfl⟩

theorem sameContent_savePending (t : Tables) (keys : List PollKey) :
    SameContent t (t.savePending keys).2 := by
  refine countChanges_keeps (P := SameContent t) (fun u key h => ?_) keys (.refl t)
  split
  · exact h
  · exact h.trans (sameContent_pending u _)

end Tables
end PollKeeper
