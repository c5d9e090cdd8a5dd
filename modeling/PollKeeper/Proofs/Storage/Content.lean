import Mathlib.Data.List.Dedup
import Mathlib.Data.List.Sort
import PollKeeper.Proofs.Poll.Answers
import PollKeeper.Proofs.Storage.Notes

/-!
# The poll behind the rows

When the rows of a poll stand for it, what is read back from such rows, and which poll they stand for
after each change of the tables.
-/

namespace PollKeeper

open Time

theorem IdSet.ext_mem {s t : IdSet} (h : ∀ x, x ∈ s ↔ x ∈ t) : s = t :=
  IdSet.ext (s.sorted.eq_of_mem_iff t.sorted fun {x} => h x)

theorem IdSet.nodup_toList (s : IdSet) : s.toList.Nodup := s.sorted.imp fun hlt => Int.ne_of_lt hlt

theorem IdSet.size_ofList (xs : List Int) : (ofList xs).size = xs.dedup.length := by
  refine ((List.perm_ext_iff_of_nodup (nodup_toList _) xs.nodup_dedup).mpr fun x => ?_).length_eq
  rw [mem_toList, mem_ofList, List.mem_dedup]

theorem Time.Zone.ofName?_name (z : Zone) : Zone.ofName? z.name = some z := dif_pos z.known

theorem Settings.make_self (s : Settings) :
    make s.answersPerUser s.duration s.canChange s.zone.name = .ok s := by
  have hwhole : s.duration.wholeSeconds = s.seconds := Nat.mul_div_cancel _ (by decide)
  simp only [make, hwhole, Zone.ofName?_name]
  rw [dif_pos ⟨s.answersPerUser_pos, s.answersPerUser_le⟩, dif_pos ⟨s.seconds_pos, s.seconds_le⟩]

theorem Settings.ofColumns_self (s : Settings) :
    Settings.ofColumns s.answersPerUser s.seconds (boolColumn s.canChange) s.zone.name = .ok s := by
  have hanswers := s.answersPerUser_le
  have hbool : decide (boolColumn s.canChange ≠ 0) = s.canChange := by
    cases s.canChange <;> rfl
  have hbounds : ¬ ((s.answersPerUser : Int) < 0 ∨ 255 < (s.answersPerUser : Int)) := by
    simp only [maxOptions] at hanswers
    omega
  have hmake : make s.answersPerUser (.ofSeconds s.seconds) s.canChange s.zone.name = .ok s := s.make_self
  rw [ofColumns, if_neg hbounds, if_neg (by omega)]
  simp only [Int.toNat_natCast, hbool, hmake]
  rfl

theorem Time.Instant.ofSeconds?_seconds {t : Instant} (h : t.nanos = 0) :
    Instant.ofSeconds? t.seconds = some t := by
  obtain ⟨seconds, nanos, hnanos, hmin, hmax⟩ := t
  subst h
  exact dif_pos ⟨hmin, hmax⟩

/-- The row of a valid poll is read as that poll, if its options are. -/
theorem PollRow.toPoll_ofPoll {p : Poll} (hp : p.IsValid) {editedAt : Int}
    {choices : List ChoiceRow} {answers : List AnswerRow}
    (hchoices : choices.map (fun c => (⟨c.id, c.name,
      .ofList ((answers.filter (·.choice = c.id)).map (·.user))⟩ : Choice)) = p.choices) :
    (ofPoll p editedAt).toPoll choices answers = .ok p := by
  have hvalid : p.validate = .ok () := Poll.validate_eq_ok_iff.mpr hp
  simp only [toPoll, ofPoll, Settings.ofColumns_self, hchoices, bind, Except.bind,
    Instant.ofSeconds?_seconds hp.start]
  have hself : (⟨p.key.poll, p.key.guild, p.channel, p.title, p.description, p.start, p.choices,
    p.settings⟩ : Poll) = p := rfl
  rw [hself, hvalid]

def PollRow.unstamped (r : PollRow) : PollRow :=
  { r with editedAt := 0, editSeenAt := none, finalRefreshed := 0 }

namespace PollSlice

open Tables

/-- The rows stand for a valid poll. -/
structure Stores (s : PollSlice) (p : Poll) : Prop where
  valid : p.IsValid
  row : s.row.map (·.unstamped) = some (.ofPoll p 0)
  choices : s.choices = choiceRows p.key p.choices.zipIdx
  answers : ∀ id user, ⟨p.key, id, user⟩ ∈ s.answers ↔ id ∈ p.answersOf user

/-- The rows under a key stand for a valid poll of that key, or there are none. -/
def Denotes (s : PollSlice) (key : PollKey) : Option Poll → Prop
  | some p => p.key = key ∧ s.Stores p
  | none => s.row = none ∧ s.choices = [] ∧ s.answers = []

theorem denotes_nothing (key : PollKey) : nothing.Denotes key none := ⟨rfl, rfl, rfl⟩

theorem Denotes.eq_none {s : PollSlice} {key : PollKey} {o : Option Poll} (h : s.Denotes key o)
    (hrow : s.row = none) : o = none := by
  cases o with
  | none => rfl
  | some p =>
    have hstored := h.2.row
    rw [hrow] at hstored
    cases hstored

theorem Denotes.isSome {s : PollSlice} {key : PollKey} {o : Option Poll} {r : PollRow}
    (h : s.Denotes key o) (hrow : s.row = some r) : ∃ p, o = some p := by
  cases o with
  | none => cases hrow.symm.trans h.1
  | some p => exact ⟨p, rfl⟩

end PollSlice

namespace Tables

variable {t t' : Tables} {key other : PollKey} {p q : Poll}

theorem pairwise_choiceRows (key : PollKey) (choices : List Choice) :
    (choiceRows key choices.zipIdx).Pairwise fun a b => a.le b = true := by
  apply List.pairwise_iff_getElem.mpr
  intro i j hi hj hij
  have hposition : ∀ (k : Nat) (hk : k < (choiceRows key choices.zipIdx).length),
      (choiceRows key choices.zipIdx)[k].position = k := by
    intro k hk
    simp [choiceRows]
  simp only [ChoiceRow.le, hposition]
  simp [hij]

private theorem choicesOf_of_stores (h : (t.slice key).Stores p) :
    t.choicesOf key = choiceRows p.key p.choices.zipIdx := by
  have hchoices : t.choices.filter (·.poll = key) = choiceRows p.key p.choices.zipIdx := h.choices
  rw [choicesOf, hchoices]
  exact List.mergeSort_of_pairwise (pairwise_choiceRows p.key p.choices)

private theorem voters_of_stores (h : (t.slice p.key).Stores p) {c : Choice} (hc : c ∈ p.choices) :
    IdSet.ofList (((t.answersOf p.key).filter (·.choice = c.id)).map (·.user)) = c.voters := by
  apply IdSet.ext_mem
  intro user
  have hmem : ⟨p.key, c.id, user⟩ ∈ t.answersOf p.key ↔ user ∈ c.voters := by
    rw [← Poll.mem_answersOf_of_mem h.valid.ids hc]
    exact h.answers c.id user
  rw [IdSet.mem_ofList, List.mem_map, ← hmem]
  constructor
  · rintro ⟨⟨poll, choice, user⟩, ha, rfl⟩
    obtain ⟨ha, hchoice⟩ := List.mem_filter.mp ha
    obtain rfl : choice = c.id := by simpa using hchoice
    obtain rfl : poll = p.key := by simpa using (List.mem_filter.mp ha).2
    exact ha
  · exact fun ha => ⟨_, List.mem_filter.mpr ⟨ha, by simp⟩, rfl⟩

theorem poll?_of_stores (h : (t.slice p.key).Stores p) : t.poll? p.key = .ok (some p) := by
  obtain ⟨r, hr, hunstamped⟩ := Option.map_eq_some_iff.mp h.row
  have hrow : t.row? p.key = some r := hr
  have hsame : r.toPoll (t.choicesOf p.key) (t.answersOf p.key) =
      (PollRow.ofPoll p 0).toPoll (t.choicesOf p.key) (t.answersOf p.key) := by
    rw [← hunstamped]
    rfl
  have hchoices : (t.choicesOf p.key).map (fun c => (⟨c.id, c.name,
      .ofList (((t.answersOf p.key).filter (·.choice = c.id)).map (·.user))⟩ : Choice)) =
        p.choices := by
    have hfst : p.choices.zipIdx.map Prod.fst = p.choices := List.zipIdx_map_fst 0 p.choices
    rw [choicesOf_of_stores h, choiceRows, List.map_map]
    conv_rhs => rw [← hfst]
    refine List.map_congr_left fun placed hplaced => ?_
    have hvoters := voters_of_stores h (List.fst_mem_of_mem_zipIdx hplaced)
    exact congrArg (Choice.mk placed.1.id placed.1.name) hvoters
  rw [poll?, hrow]
  simp only [hsame, PollRow.toPoll_ofPoll h.valid hchoices]
  rfl

theorem poll?_of_denotes {o : Option Poll} (h : (t.slice key).Denotes key o) : t.poll? key = .ok o := by
  cases o with
  | some p =>
    obtain ⟨rfl, hstores⟩ := h
    exact poll?_of_stores hstores
  | none =>
    have hrow : t.row? key = none := h.1
    rw [poll?, hrow]

theorem mem_answerRows {id : ChoiceId} {user : UserId} :
    ⟨key, id, user⟩ ∈ answerRows key p.choices.zipIdx ↔ id ∈ p.answersOf user := by
  rw [Poll.mem_answersOf]
  simp only [answerRows, List.mem_flatMap, List.mem_map]
  constructor
  · rintro ⟨⟨c, i⟩, hc, u, hu, he⟩
    cases he
    exact ⟨c, List.fst_mem_of_mem_zipIdx hc, rfl, hu⟩
  · rintro ⟨c, hc, rfl, hu⟩
    obtain ⟨i, hi, rfl⟩ := List.getElem_of_mem hc
    exact ⟨(p.choices[i], i), by simp [List.mem_zipIdx_iff_getElem?], user, hu, rfl⟩

theorem stores_withPoll (hold : (t.slice p.key).Denotes p.key none) (hp : p.IsValid)
    (editedAt : Int) : ((t.withPoll p editedAt).slice p.key).Stores p := by
  obtain ⟨hrow, hchoices, hanswers⟩ := hold
  rw [slice_withPoll t p editedAt hrow, if_pos rfl, hchoices, hanswers]
  exact ⟨hp, rfl, rfl, fun _ _ => mem_answerRows⟩

theorem stores_withDetails (h : (t.slice q.key).Stores q) (hp : p.IsValid) (editedAt : Int) :
    ((t.modifyRow q.key (·.withDetails p.title p.description p.settings editedAt)).slice
      q.key).Stores (q.revised p) := by
  obtain ⟨r, hr, hunstamped⟩ := Option.map_eq_some_iff.mp h.row
  have hrow : t.row? q.key = some r := hr
  rw [slice_modifyRow (keepsKey_withDetails _ _ _ _), if_pos rfl, hrow]
  refine ⟨h.valid.revised hp, ?_, h.choices, h.answers⟩
  calc some (r.withDetails p.title p.description p.settings editedAt).unstamped
      = some (r.unstamped.withDetails p.title p.description p.settings 0).unstamped := rfl
    _ = some ((PollRow.ofPoll q 0).withDetails p.title p.description p.settings 0).unstamped := by
      rw [hunstamped]
    _ = some (.ofPoll (q.revised p) 0) := rfl

theorem mem_answers_replaced {user voter : UserId} {id : ChoiceId} {chosen : IdSet}
    {added : List AnswerRow} (hadded : ∀ a ∈ added, ∃ id ∈ chosen.toList, a = ⟨key, id, voter⟩)
    (hall : ∀ id ∈ chosen.toList, ⟨key, id, voter⟩ ∈ added) :
    ⟨key, id, user⟩ ∈ (t.withdraw key voter).answers ++ added ↔
      if user = voter then id ∈ chosen else ⟨key, id, user⟩ ∈ t.answers := by
  have hnew : ⟨key, id, user⟩ ∈ added ↔ user = voter ∧ id ∈ chosen := by
    constructor
    · intro h
      obtain ⟨id', hid, he⟩ := hadded _ h
      cases he
      exact ⟨rfl, hid⟩
    · rintro ⟨rfl, hid⟩
      exact hall id hid
  rw [List.mem_append, hnew]
  by_cases hu : user = voter <;> simp [withdraw, hu]

private theorem choiceRows_answered (key : PollKey) (q : Poll) (voter : UserId) (chosen : IdSet) :
    choiceRows key (q.answered voter chosen).choices.zipIdx = choiceRows key q.choices.zipIdx := by
  simp [choiceRows, Poll.answered, List.zipIdx_map]

theorem stores_replaceAnswers {voter : UserId} {chosen : IdSet} {editedAt : Int}
    (h : (t.slice q.key).Stores q) (hknown : ∀ id ∈ chosen, id ∈ q.choices.map (·.id))
    (hreplaced : t.replaceAnswers q.key voter chosen.toList editedAt = .ok t') :
    (t'.slice q.key).Stores (q.answered voter chosen) := by
  obtain ⟨added, rfl, ⟨r, hr⟩, hadded, hall⟩ := replaceAnswers_eq_ok hreplaced
  have hkey : (q.answered voter chosen).key = q.key := rfl
  refine ⟨h.valid.answered voter chosen, ?_, ?_, fun id user => ?_⟩
  · have hold : some r.unstamped = some (PollRow.ofPoll q 0) := by
      rw [← h.row]
      exact congrArg (Option.map _) hr.symm
    have hrow := row?_modifyRow (f := fun r => { r with editedAt }) (fun _ => rfl) t q.key q.key
    rw [if_pos rfl, hr] at hrow
    exact (congrArg (Option.map _) hrow).trans hold
  · rw [hkey, choiceRows_answered]
    exact h.choices
  · have hfilter : ∀ rows : List AnswerRow,
        ⟨q.key, id, user⟩ ∈ rows.filter (·.poll = q.key) ↔ ⟨q.key, id, user⟩ ∈ rows := by
      simp [List.mem_filter]
    refine (hfilter _).trans ((mem_answers_replaced hadded hall).trans ?_)
    rw [Poll.answersOf_answered]
    split
    · rw [List.mem_filter, decide_eq_true_eq]
      exact ⟨fun hid => ⟨hknown id hid, hid⟩, And.right⟩
    · exact (hfilter t.answers).symm.trans (h.answers id user)

private theorem denotes_modifyRow {f : PollRow → PollRow} (hf : KeepsKey f)
    (hnotes : ∀ r, (f r).unstamped = r.unstamped) {o : Option Poll}
    (h : (t.slice other).Denotes other o) : ((t.modifyRow key f).slice other).Denotes other o := by
  rw [slice_modifyRow hf]
  split
  · next hkey =>
    subst hkey
    cases o with
    | none =>
      have hrow : t.row? other = none := h.1
      exact ⟨congrArg (Option.map f) hrow, h.2⟩
    | some p =>
      refine ⟨h.1, h.2.valid, ?_, h.2.choices, h.2.answers⟩
      have hrow : ((t.row? other).map f).map (·.unstamped) = (t.row? other).map (·.unstamped) := by
        rw [Option.map_map]
        exact congrArg (Option.map · _) (funext hnotes)
      exact hrow.trans h.2.row
  · exact h

theorem denotes_modifyRowIf {f : PollRow → PollRow} (hf : KeepsKey f)
    (hnotes : ∀ r, (f r).unstamped = r.unstamped) (p : PollRow → Bool) {o : Option Poll}
    (h : (t.slice other).Denotes other o) :
    ((t.modifyRowIf key p f).2.slice other).Denotes other o := by
  rw [modifyRowIf_snd]
  split
  · exact denotes_modifyRow hf hnotes h
  · exact h

theorem denotes_markSeen (edits : List EditStamp) {o : Option Poll} (h : (t.slice key).Denotes key o) :
    ((t.markSeen edits).2.slice key).Denotes key o := by
  rw [markSeen]
  refine countChanges_keeps (P := fun u => (u.slice key).Denotes key o) (fun u edit hu => ?_) edits h
  refine denotes_modifyRowIf (keepsKey_withSeen edit.editedAt) (fun r => ?_) _ hu
  obtain ⟨seen, heq, -⟩ := r.withSeen_eq edit.editedAt
  rw [heq]
  rfl

theorem denotes_markFinal (keys : List PollKey) {o : Option Poll} (h : (t.slice key).Denotes key o) :
    ((t.markFinal keys).2.slice key).Denotes key o := by
  rw [markFinal]
  refine countChanges_keeps (P := fun u => (u.slice key).Denotes key o) (fun u _ hu => ?_) keys h
  exact denotes_modifyRowIf (invisible_finalRefreshed 1).keepsKey (fun _ => rfl) _ hu

theorem denotes_pending {o : Option Poll} (h : (t.slice key).Denotes key o) (pending : List PollKey) :
    (({ t with pending } : Tables).slice key).Denotes key o := by
  cases o with
  | none => exact h
  | some p => exact ⟨h.1, h.2.valid, h.2.row, h.2.choices, h.2.answers⟩

end Tables
end PollKeeper
