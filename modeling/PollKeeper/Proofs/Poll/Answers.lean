import Mathlib.Data.List.Nodup
import Mathlib.Data.List.Perm.Subperm
import PollKeeper.Poll.Ballot
import PollKeeper.Proofs.Poll.Validity

/-!
# Answers of a poll

What a user has answered, how the answers change when a poll is revised or a selection is cast, and
which polls are within their own limit of answers.
-/

namespace PollKeeper

namespace Poll

def revised (q p : Poll) : Poll :=
  { q with title := p.title, description := p.description, settings := p.settings }

def answered (q : Poll) (voter : UserId) (chosen : IdSet) : Poll :=
  { q with
    choices := q.choices.map fun c =>
      { c with
        voters := if c.id ∈ chosen then c.voters.insert voter else c.voters.erase voter } }

variable {p q : Poll}

theorem mem_answersOf {id : ChoiceId} {user : UserId} :
    id ∈ p.answersOf user ↔ ∃ c ∈ p.choices, c.id = id ∧ user ∈ c.voters := by
  simp only [answersOf, List.mem_map, List.mem_filter, decide_eq_true_eq]
  exact exists_congr fun c => by rw [and_assoc, and_comm (a := user ∈ c.voters)]

theorem mem_answersOf_of_mem (hids : (p.choices.map (·.id)).Nodup) {c : Choice}
    (hc : c ∈ p.choices) {user : UserId} : c.id ∈ p.answersOf user ↔ user ∈ c.voters := by
  rw [mem_answersOf]
  refine ⟨?_, fun hu => ⟨c, hc, rfl, hu⟩⟩
  rintro ⟨d, hd, hid, hu⟩
  obtain rfl : d = c := List.inj_on_of_nodup_map hids hd hc hid
  exact hu

/-- The selection of a user becomes the whole answer of that user and of nobody else. -/
theorem answersOf_answered (q : Poll) (voter : UserId) (chosen : IdSet) (user : UserId) :
    (q.answered voter chosen).answersOf user =
      if user = voter then (q.choices.map (·.id)).filter (· ∈ chosen) else q.answersOf user := by
  simp only [answersOf, answered, List.filter_map, List.map_map]
  split
  · next hvoter =>
    subst hvoter
    congr 1
    apply List.filter_congr
    intro c _
    by_cases hc : c.id ∈ chosen <;> simp [hc]
  · next hvoter =>
    congr 1
    apply List.filter_congr
    intro c _
    by_cases hc : c.id ∈ chosen <;> simp [hc, hvoter]

theorem IsValid.revised (hq : q.IsValid) (hp : p.IsValid) : (q.revised p).IsValid :=
  { hq with title := hp.title, description := hp.description }

theorem IsValid.answered (hq : q.IsValid) (voter : UserId) (chosen : IdSet) :
    (q.answered voter chosen).IsValid := by
  have hids : (q.answered voter chosen).choices.map (·.id) = q.choices.map (·.id) := by
    simp [Poll.answered]
  refine { hq with
    choices_pos := ?_
    choices_le := ?_
    names := ?_
    ids := hids ▸ hq.ids }
  · simpa [Poll.answered] using hq.choices_pos
  · simpa [Poll.answered] using hq.choices_le
  · intro c hc
    obtain ⟨d, hd, rfl⟩ := List.mem_map.mp hc
    exact hq.names d hd

theorem choice?_eq_none_iff {id : ChoiceId} : p.choice? id = none ↔ id ∉ p.choices.map (·.id) := by
  simp [choice?, List.find?_eq_none]

theorem checkSelection_eq_ok_iff {chosen : IdSet} :
    p.checkSelection chosen = .ok () ↔
      (∀ id ∈ chosen, id ∈ p.choices.map (·.id)) ∧ chosen.size ≤ p.settings.answersPerUser := by
  simp only [checkSelection]
  split
  · next id hid =>
    refine ⟨nofun, fun h => ?_⟩
    have hknown := h.1 id (List.mem_of_find?_eq_some hid)
    have hunknown := List.find?_some hid
    exact absurd hknown (choice?_eq_none_iff.mp (Option.isNone_iff_eq_none.mp hunknown))
  · next hnone =>
    have hknown : ∀ id ∈ chosen, id ∈ p.choices.map (·.id) := by
      intro id hid
      have hfound := List.find?_eq_none.mp hnone id hid
      rw [Option.isNone_iff_eq_none, choice?_eq_none_iff] at hfound
      exact Decidable.not_not.mp hfound
    split
    · next hsize => exact ⟨fun _ => ⟨hknown, hsize⟩, fun _ => rfl⟩
    · next hsize => exact ⟨nofun, fun h => absurd h.2 hsize⟩

/-- Nobody has given more answers than the settings of the poll allow. -/
def WithinCap (p : Poll) : Prop :=
  ∀ user, (p.answersOf user).length ≤ p.settings.answersPerUser

/-- A user has given no more answers than the settings of the poll allow. -/
def WithinLimit (p : Poll) (user : UserId) : Prop :=
  (p.answersOf user).length ≤ p.settings.answersPerUser

instance (p : Poll) (user : UserId) : Decidable (p.WithinLimit user) :=
  inferInstanceAs (Decidable (_ ≤ _))

/-- A checked selection does not exceed the limit. -/
theorem withinLimit_answered (hids : (p.choices.map (·.id)).Nodup) {chosen : IdSet}
    (hchosen : p.checkSelection chosen = .ok ()) (voter : UserId) :
    (p.answered voter chosen).WithinLimit voter := by
  have hsubset : (p.choices.map (·.id)).filter (· ∈ chosen) ⊆ chosen.toList := by
    intro id hid
    simpa using (List.mem_filter.mp hid).2
  rw [WithinLimit, answersOf_answered, if_pos rfl]
  calc ((p.choices.map (·.id)).filter (· ∈ chosen)).length
      ≤ chosen.toList.length := (List.subperm_of_subset (hids.filter _) hsubset).length_le
    _ ≤ p.settings.answersPerUser := (checkSelection_eq_ok_iff.mp hchosen).2

/-- A selection leaves the answers of all other users as they are. -/
theorem withinLimit_answered_of_ne {user voter : UserId} (h : user ≠ voter) (chosen : IdSet) :
    (p.answered voter chosen).WithinLimit user ↔ p.WithinLimit user := by
  rw [WithinLimit, answersOf_answered, if_neg h]
  rfl

end Poll
end PollKeeper
