import PollKeeper.Proofs.Storage.Content

/-!
# The rows of one guild

Two states of the tables may hold the same rows of a guild and differ in everything else. Then whatever
is read of the guild is the same, and a change that is confined to the guild fails in both or leaves the
same rows of the guild in both; the rows of all other guilds it leaves alone.
-/

namespace PollKeeper

/-- The order and the repetition of answers play no part in the poll of a row. -/
theorem PollRow.toPoll_congr (r : PollRow) (choices : List ChoiceRow)
    {answers answers' : List AnswerRow} (h : ∀ a, a ∈ answers ↔ a ∈ answers') :
    r.toPoll choices answers = r.toPoll choices answers' := by
  have hvoters : ∀ c : ChoiceRow,
      IdSet.ofList ((answers.filter (·.choice = c.id)).map (·.user)) =
        IdSet.ofList ((answers'.filter (·.choice = c.id)).map (·.user)) := by
    intro c
    refine IdSet.ext_mem fun user => ?_
    simp only [IdSet.mem_ofList, List.mem_map, List.mem_filter, h]
  simp only [toPoll, hvoters]

theorem ChoiceRow.le_trans (a b c : ChoiceRow) (hab : a.le b) (hbc : b.le c) : a.le c := by
  grind [ChoiceRow.le]

theorem ChoiceRow.le_total (a b : ChoiceRow) : a.le b || b.le a := by
  grind [ChoiceRow.le]

private theorem ChoiceRow.id_eq_of_le {a b : ChoiceRow} (hab : a.le b) (hba : b.le a) : a.id = b.id := by
  grind [ChoiceRow.le]

namespace Tables

variable {t t' u u' : Tables} {guild : GuildId} {key : PollKey}

/-- No two rows have the same primary key. -/
structure PrimaryKeys (t : Tables) : Prop where
  settings : (t.settings.map (·.guild)).Nodup
  polls : (t.polls.map (·.key)).Nodup
  choices : (t.choices.map fun c => (c.poll, c.id)).Nodup

theorem primaryKeys_empty : empty.PrimaryKeys := ⟨.nil, .nil, .nil⟩

/-- Two states of the tables hold the same rows of a guild, in whatever order. -/
structure SameRows (guild : GuildId) (t t' : Tables) : Prop where
  settings : ∀ row : SettingsRow, row.guild = guild → (row ∈ t.settings ↔ row ∈ t'.settings)
  polls : ∀ row : PollRow, row.key.guild = guild → (row ∈ t.polls ↔ row ∈ t'.polls)
  choices : ∀ row : ChoiceRow, row.poll.guild = guild → (row ∈ t.choices ↔ row ∈ t'.choices)
  answers : ∀ row : AnswerRow, row.poll.guild = guild → (row ∈ t.answers ↔ row ∈ t'.answers)
  pending : ∀ key : PollKey, key.guild = guild → (key ∈ t.pending ↔ key ∈ t'.pending)

structure AgreeOn (guild : GuildId) (t t' : Tables) : Prop where
  left : t.PrimaryKeys
  right : t'.PrimaryKeys
  rows : SameRows guild t t'

def others (t : Tables) (guild : GuildId) : Tables :=
  ⟨t.settings.filter (·.guild ≠ guild), t.polls.filter (·.key.guild ≠ guild),
    t.choices.filter (·.poll.guild ≠ guild), t.answers.filter (·.poll.guild ≠ guild),
    t.pending.filter (·.guild ≠ guild)⟩

theorem mem_settingsRow?_iff (h : t.PrimaryKeys) {row : SettingsRow} :
    t.settingsRow? guild = some row ↔ row ∈ t.settings ∧ row.guild = guild :=
  find?_key_eq_some_iff h.settings

theorem mem_row?_iff (h : t.PrimaryKeys) {row : PollRow} :
    t.row? key = some row ↔ row ∈ t.polls ∧ row.key = key :=
  find?_key_eq_some_iff h.polls

theorem hasChoice_iff {id : ChoiceId} :
    t.hasChoice key id = true ↔ ∃ c ∈ t.choices, c.poll = key ∧ c.id = id := by
  simp [hasChoice]

namespace AgreeOn

private theorem settingsRow?_eq (h : AgreeOn guild t t') :
    t.settingsRow? guild = t'.settingsRow? guild := by
  refine Option.ext fun row => ?_
  rw [mem_settingsRow?_iff h.left, mem_settingsRow?_iff h.right]
  exact and_congr_left (h.rows.settings row)

theorem settingsOf_eq (h : AgreeOn guild t t') : t.settingsOf guild = t'.settingsOf guild := by
  simp only [settingsOf, h.settingsRow?_eq]

theorem row?_eq (h : AgreeOn guild t t') (hkey : key.guild = guild) : t.row? key = t'.row? key := by
  refine Option.ext fun row => ?_
  rw [mem_row?_iff h.left, mem_row?_iff h.right]
  exact and_congr_left fun hrow => h.rows.polls row (hrow ▸ hkey)

theorem stamp?_eq (h : AgreeOn guild t t') (hkey : key.guild = guild) :
    t.stamp? key = t'.stamp? key := by
  simp only [stamp?, h.row?_eq hkey]

theorem hasChoice_eq (h : AgreeOn guild t t') (hkey : key.guild = guild) (id : ChoiceId) :
    t.hasChoice key id = t'.hasChoice key id := by
  rw [Bool.eq_iff_iff, hasChoice_iff, hasChoice_iff]
  refine exists_congr fun c => and_congr_left fun hc => ?_
  exact h.rows.choices c (hc.1 ▸ hkey)

/-- The places and ids of options are enough to put them in order. -/
theorem choicesOf_eq (h : AgreeOn guild t t') (hkey : key.guild = guild) :
    t.choicesOf key = t'.choicesOf key := by
  have hmem : ∀ c : ChoiceRow,
      c ∈ t.choices.filter (·.poll = key) ↔ c ∈ t'.choices.filter (·.poll = key) := by
    intro c
    simp only [List.mem_filter, decide_eq_true_eq]
    exact and_congr_left fun hc => h.rows.choices c (hc ▸ hkey)
  have hperm : (t.choices.filter (·.poll = key)).Perm (t'.choices.filter (·.poll = key)) :=
    (List.perm_ext_iff_of_nodup (h.left.choices.of_map.filter _)
      (h.right.choices.of_map.filter _)).mpr hmem
  refine List.Perm.eq_of_pairwise (fun a b ha hb hab hba => ?_)
    (List.pairwise_mergeSort ChoiceRow.le_trans ChoiceRow.le_total _)
    (List.pairwise_mergeSort ChoiceRow.le_trans ChoiceRow.le_total _)
    (((List.mergeSort_perm _ _).trans hperm).trans (List.mergeSort_perm _ _).symm)
  have ha := List.mem_filter.mp (List.mem_mergeSort.mp ha)
  have hb := List.mem_filter.mp ((hmem b).mpr (List.mem_mergeSort.mp hb))
  have hpoll : a.poll = b.poll :=
    (of_decide_eq_true ha.2).trans (of_decide_eq_true hb.2).symm
  exact List.inj_on_of_nodup_map h.left.choices ha.1 hb.1 (Prod.ext hpoll (ChoiceRow.id_eq_of_le hab hba))

private theorem poll?_eq (h : AgreeOn guild t t') (hkey : key.guild = guild) :
    t.poll? key = t'.poll? key := by
  have hanswers : ∀ a : AnswerRow, a ∈ t.answersOf key ↔ a ∈ t'.answersOf key := by
    intro a
    simp only [answersOf, List.mem_filter, decide_eq_true_eq]
    exact and_congr_left fun ha => h.rows.answers a (ha ▸ hkey)
  simp only [poll?, h.row?_eq hkey, h.choicesOf_eq hkey, PollRow.toPoll_congr _ _ hanswers]

theorem fetch_eq (h : AgreeOn guild t t') (hkey : key.guild = guild) : t.fetch key = t'.fetch key :=
  fetch_congr (h.poll?_eq hkey)

theorem pollIds_eq (h : AgreeOn guild t t') :
    IdSet.ofList (t.pollIds guild) = IdSet.ofList (t'.pollIds guild) := by
  refine IdSet.ext_mem fun id => ?_
  have hmem : ∀ t : Tables, id ∈ t.pollIds guild ↔ ∃ r ∈ t.polls, r.key = ⟨guild, id⟩ := by
    intro t
    simp only [pollIds, List.mem_mergeSort, List.mem_map, List.mem_filter, decide_eq_true_eq]
    constructor
    · rintro ⟨_, ⟨⟨r, hr, rfl⟩, rfl⟩, rfl⟩
      exact ⟨r, hr, rfl⟩
    · rintro ⟨r, hr, hkey⟩
      exact ⟨_, ⟨⟨r, hr, rfl⟩, by rw [hkey]⟩, by rw [hkey]⟩
  rw [IdSet.mem_ofList, IdSet.mem_ofList, hmem, hmem]
  exact exists_congr fun r => and_congr_left fun hr => h.rows.polls r (by rw [hr])

end AgreeOn

/-- Both changes fail for the same reason, or both leave the same rows of a guild. -/
inductive Alike (guild : GuildId) : Except StorageError Tables → Except StorageError Tables → Prop
  | ok {u u' : Tables} (h : SameRows guild u u') : Alike guild (.ok u) (.ok u')
  | error (e : StorageError) : Alike guild (.error e) (.error e)

/-- A change that looks at the rows of one guild only, and changes no others. -/
structure Confined (guild : GuildId) (f : Tables → Except StorageError Tables) : Prop where
  alike : ∀ {t t' : Tables}, AgreeOn guild t t' → Alike guild (f t) (f t')
  keys : ∀ {t u : Tables}, t.PrimaryKeys → f t = .ok u → u.PrimaryKeys
  others : ∀ {t u : Tables}, f t = .ok u → u.others guild = t.others guild

namespace Confined

variable {f g : Tables → Except StorageError Tables}

theorem of_total {f : Tables → Tables}
    (hrows : ∀ {t t' : Tables}, AgreeOn guild t t' → SameRows guild (f t) (f t'))
    (hkeys : ∀ {t : Tables}, t.PrimaryKeys → (f t).PrimaryKeys)
    (hothers : ∀ t : Tables, (f t).others guild = t.others guild) :
    Confined guild fun t => .ok (f t) where
  alike h := .ok (hrows h)
  keys h hu := by
    cases hu
    exact hkeys h
  others hu := by
    cases hu
    exact hothers _

theorem congr (hf : Confined guild f) (h : ∀ t, g t = f t) : Confined guild g := funext h ▸ hf

theorem bind (hf : Confined guild f) (hg : Confined guild g) :
    Confined guild fun t => f t >>= g where
  alike {t t'} h := by
    have halike := hf.alike h
    cases hft : f t with
    | error e =>
      rw [hft] at halike
      cases hft' : f t' with
      | error e' =>
        rw [hft'] at halike
        cases halike
        exact .error e
      | ok u' =>
        rw [hft'] at halike
        cases halike
    | ok u =>
      rw [hft] at halike
      cases hft' : f t' with
      | error e' =>
        rw [hft'] at halike
        cases halike
      | ok u' =>
        rw [hft'] at halike
        cases halike with
        | ok hrows => exact hg.alike ⟨hf.keys h.left hft, hf.keys h.right hft', hrows⟩
  keys h hu := by
    obtain ⟨v, hv, hu⟩ := bind_eq_ok hu
    exact hg.keys (hf.keys h hv) hu
  others hu := by
    obtain ⟨v, hv, hu⟩ := bind_eq_ok hu
    exact (hg.others hu).trans (hf.others hv)

theorem foldlM {α : Type} {f : Tables → α → Except StorageError Tables}
    (hf : ∀ a, Confined guild (f · a)) (items : List α) :
    Confined guild fun t => items.foldlM f t := by
  induction items with
  | nil => exact of_total AgreeOn.rows id fun _ => rfl
  | cons a rest ih => exact (hf a).bind ih

theorem ite {p : Tables → Bool} (hp : ∀ {t t' : Tables}, AgreeOn guild t t' → p t = p t')
    (hf : Confined guild f) (hg : Confined guild g) :
    Confined guild fun t => if p t then f t else g t where
  alike {t t'} h := by
    rw [hp h]
    split
    · exact hf.alike h
    · exact hg.alike h
  keys h hu := by
    split at hu
    · exact hf.keys h hu
    · exact hg.keys h hu
  others hu := by
    split at hu
    · exact hf.others hu
    · exact hg.others hu

theorem error (e : StorageError) : Confined guild fun _ => .error e :=
  ⟨fun _ => .error e, nofun, nofun⟩

end Confined

theorem filter_map_of_fixed {α : Type} {p : α → Bool} {f : α → α} (xs : List α)
    (hout : ∀ x, p x = false → p (f x) = false) (hin : ∀ x, p x = true → f x = x) :
    (xs.map f).filter p = xs.filter p := by
  induction xs with
  | nil => rfl
  | cons x rest ih =>
    rw [List.map_cons, List.filter_cons, List.filter_cons, ih]
    cases hx : p x with
    | false => simp [hout x hx]
    | true => simp [hin x hx, hx]

theorem mem_map_congr {α : Type} {p : α → Prop} {f : α → α} {xs ys : List α}
    (hf : ∀ x, p (f x) → p x) (h : ∀ x, p x → (x ∈ xs ↔ x ∈ ys)) {y : α} (hy : p y) :
    y ∈ xs.map f ↔ y ∈ ys.map f := by
  simp only [List.mem_map]
  refine exists_congr fun x => and_congr_left fun hx => h x (hf x ?_)
  rwa [hx]

theorem confined_putSettings (row : SettingsRow) :
    Confined row.guild fun t => .ok (t.putSettings row) := by
  have hguild : ∀ r : SettingsRow, (if r.guild = row.guild then row else r).guild = r.guild := by
    intro r
    split
    · next h => exact h.symm
    · rfl
  refine .of_total (fun {t t'} h => ⟨fun r hr => ?_, h.rows.polls, h.rows.choices, h.rows.answers,
    h.rows.pending⟩) (fun {t} h => ⟨?_, h.polls, h.choices⟩) fun t => ?_
  · have hany : t.settings.any (·.guild = row.guild) = t'.settings.any (·.guild = row.guild) := by
      rw [Bool.eq_iff_iff]
      simp only [List.any_eq_true, decide_eq_true_eq]
      exact exists_congr fun r => and_congr_left (h.rows.settings r)
    simp only [putSettings, hany]
    split
    · exact mem_map_congr (fun x hx => hguild x ▸ hx) h.rows.settings hr
    · rw [List.mem_append, List.mem_append, h.rows.settings r hr]
  · simp only [putSettings]
    split
    · have hmap : (t.settings.map fun r => if r.guild = row.guild then row else r).map (·.guild) =
          t.settings.map (·.guild) := by
        rw [List.map_map]
        exact List.map_congr_left fun r _ => hguild r
      rw [hmap]
      exact h.settings
    · next hnew =>
      rw [List.map_append]
      refine List.nodup_append.mpr ⟨h.settings, List.nodup_singleton _, fun g hg g' hg' => ?_⟩
      obtain ⟨r, hr, rfl⟩ := List.mem_map.mp hg
      rw [List.mem_singleton.mp hg']
      exact fun he => hnew (List.any_eq_true.mpr ⟨r, hr, decide_eq_true he⟩)
  · simp only [others, putSettings]
    congr 1
    split
    · refine filter_map_of_fixed _ (fun r hr => ?_) fun r hr => ?_
      · simpa [hguild] using hr
      · exact if_neg (by simpa using hr)
    · simp

private theorem confined_modifyRow {f : PollRow → PollRow} (hf : KeepsKey f) (hkey : key.guild = guild) :
    Confined guild fun t => .ok (t.modifyRow key f) := by
  have hkeys : ∀ r : PollRow, (if r.key = key then f r else r).key = r.key := by
    intro r
    split
    · exact hf r
    · rfl
  refine .of_total (fun h => ⟨h.rows.settings, fun r hr => ?_, h.rows.choices, h.rows.answers,
    h.rows.pending⟩) (fun {t} h => ⟨h.settings, ?_, h.choices⟩) fun t => ?_
  · exact mem_map_congr (p := fun r : PollRow => r.key.guild = guild)
      (fun x hx => hkeys x ▸ hx) h.rows.polls hr
  · rw [keys_modifyRow hf]
    exact h.polls
  · simp only [others, modifyRow]
    congr 1
    refine filter_map_of_fixed _ (fun r hr => ?_) fun r hr => if_neg ?_
    · simpa [hkeys] using hr
    · rintro rfl
      simp [hkey] at hr

theorem confined_modifyRow? {f : PollRow → PollRow} (hf : KeepsKey f) (hkey : key.guild = guild) :
    Confined guild (·.modifyRow? key f) := by
  refine .ite (fun h => ?_) (confined_modifyRow hf hkey) (.error .notFound)
  rw [h.row?_eq hkey]

private theorem confined_addRow (row : PollRow) :
    Confined row.key.guild fun t => if (t.row? row.key).isSome then .error .alreadyExists
      else .ok { t with polls := t.polls ++ [row] } where
  alike {t t'} h := by
    rw [h.row?_eq rfl]
    split
    · exact .error _
    · refine .ok ⟨h.rows.settings, fun r hr => ?_, h.rows.choices, h.rows.answers, h.rows.pending⟩
      rw [List.mem_append, List.mem_append, h.rows.polls r hr]
  keys {t u} h hu := by
    split at hu
    · cases hu
    · next hnew =>
      cases hu
      rw [Option.not_isSome_iff_eq_none, row?_eq_none_iff] at hnew
      refine ⟨h.settings, ?_, h.choices⟩
      rw [List.map_append]
      refine List.nodup_append.mpr ⟨h.polls, List.nodup_singleton _, fun k hk k' hk' => ?_⟩
      obtain ⟨r, hr, rfl⟩ := List.mem_map.mp hk
      rw [List.mem_singleton.mp hk']
      exact hnew r hr
  others {t u} hu := by
    split at hu
    · cases hu
    · cases hu
      simp [others]

private theorem confined_insertChoice (hkey : key.guild = guild) (position : Nat) (c : Choice) :
    Confined guild (·.insertChoice key position c) where
  alike {t t'} h := by
    simp only [insertChoice, h.hasChoice_eq hkey]
    split
    · exact .error _
    · refine .ok ⟨h.rows.settings, h.rows.polls, fun r hr => ?_, fun a ha => ?_, h.rows.pending⟩
      · rw [List.mem_append, List.mem_append, h.rows.choices r hr]
      · rw [List.mem_append, List.mem_append, h.rows.answers a ha]
  keys {t u} h hu := by
    simp only [insertChoice] at hu
    split at hu
    · cases hu
    · next hnew =>
      cases hu
      refine ⟨h.settings, h.polls, ?_⟩
      rw [List.map_append]
      refine List.nodup_append.mpr ⟨h.choices, List.nodup_singleton _, fun k hk k' hk' => ?_⟩
      obtain ⟨r, hr, rfl⟩ := List.mem_map.mp hk
      rw [List.mem_singleton.mp hk']
      intro he
      exact hnew (hasChoice_iff.mpr ⟨r, hr, (Prod.mk.inj he).1, (Prod.mk.inj he).2⟩)
  others {t u} hu := by
    simp only [insertChoice] at hu
    split at hu
    · cases hu
    · cases hu
      simp [others, hkey]

theorem confined_insertPoll (p : Poll) (editedAt : Int) :
    Confined p.guild (·.insertPoll p editedAt) := by
  have hsteps := (confined_addRow (.ofPoll p editedAt)).bind
    (Confined.foldlM (f := fun t placed => t.insertChoice p.key placed.2 placed.1)
      (fun placed => confined_insertChoice rfl placed.2 placed.1) p.choices.zipIdx)
  refine hsteps.congr fun t => ?_
  have hkey : (PollRow.ofPoll p editedAt).key = p.key := rfl
  simp only [insertPoll, hkey]
  split <;> rfl

private theorem confined_withdraw (hkey : key.guild = guild) (user : UserId) :
    Confined guild fun t => .ok (t.withdraw key user) := by
  refine .of_total (fun h => ⟨h.rows.settings, h.rows.polls, h.rows.choices, fun a ha => ?_,
    h.rows.pending⟩) (fun h => ⟨h.settings, h.polls, h.choices⟩) fun t => ?_
  · simp only [withdraw, List.mem_filter, h.rows.answers a ha]
  · simp only [others, withdraw, List.filter_filter]
    congr 1
    refine List.filter_congr fun a _ => ?_
    by_cases ha : a.poll = key <;> simp [ha, hkey]

private theorem confined_insertAnswer (a : AnswerRow) : Confined a.poll.guild (·.insertAnswer a) where
  alike {t t'} h := by
    simp only [insertAnswer, h.rows.answers a rfl, h.hasChoice_eq rfl]
    split
    · exact .ok h.rows
    · split
      · refine .ok ⟨h.rows.settings, h.rows.polls, h.rows.choices, fun b hb => ?_, h.rows.pending⟩
        rw [List.mem_append, List.mem_append, h.rows.answers b hb]
      · exact .error _
  keys {t u} h hu := by
    simp only [insertAnswer] at hu
    split at hu
    · cases hu
      exact h
    · split at hu
      · cases hu
        exact ⟨h.settings, h.polls, h.choices⟩
      · cases hu
  others {t u} hu := by
    simp only [insertAnswer] at hu
    split at hu
    · cases hu
      rfl
    · split at hu
      · cases hu
        simp [others]
      · cases hu

theorem confined_replaceAnswers (hkey : key.guild = guild) (user : UserId) (chosen : List ChoiceId)
    (editedAt : Int) : Confined guild (·.replaceAnswers key user chosen editedAt) := by
  have hinsert : Confined guild fun t => chosen.foldlM (fun t id => t.insertAnswer ⟨key, id, user⟩) t :=
    .foldlM (fun id => hkey ▸ confined_insertAnswer ⟨key, id, user⟩) chosen
  exact (confined_modifyRow? (f := fun r => { r with editedAt }) (fun _ => rfl) hkey).bind
    ((confined_withdraw hkey user).bind hinsert)

end Tables
end PollKeeper
