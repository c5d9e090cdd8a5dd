import PollKeeper.Proofs.Storage.Content

/-!
# Faults of changes

A change of a poll fails just if the tables have a fault for it: the poll is there already, or it is not
there, or an option comes up twice, or an answer is for an option that is not stored.
-/

namespace PollKeeper

/-- A change of the rows of one poll. -/
inductive PollChange where
  | insert (p : Poll)
  | update (key : PollKey) (title description : String) (s : Settings)
  | answer (key : PollKey) (user : UserId) (chosen : List ChoiceId)

namespace Tables

variable {t t' : Tables} {key : PollKey}

def Admits (t : Tables) (key : PollKey) (ids : List ChoiceId) : Prop :=
  ids.Nodup ∧ ∀ id ∈ ids, t.hasChoice key id = false

instance (t : Tables) (key : PollKey) (ids : List ChoiceId) : Decidable (t.Admits key ids) :=
  inferInstanceAs (Decidable (_ ∧ _))

private theorem admits_cons {id : ChoiceId} {ids : List ChoiceId} {t' : Tables}
    (ht' : ∀ other, t'.hasChoice key other = (t.hasChoice key other || decide (id = other))) :
    t.Admits key (id :: ids) ↔ t.hasChoice key id = false ∧ t'.Admits key ids := by
  simp only [Admits, List.nodup_cons, List.forall_mem_cons, ht', Bool.or_eq_false_iff,
    decide_eq_false_iff_not]
  constructor
  · rintro ⟨⟨hnew, hnodup⟩, hfirst, hrest⟩
    exact ⟨hfirst, hnodup, fun other ho => ⟨hrest other ho, fun he => hnew (he ▸ ho)⟩⟩
  · rintro ⟨hfirst, hnodup, hrest⟩
    exact ⟨⟨fun hmem => (hrest id hmem).2 rfl, hnodup⟩, hfirst, fun other ho => (hrest other ho).1⟩

/-- Options are added all together, or the first one that comes up twice stops them. -/
theorem insertChoices_eq (t : Tables) (key : PollKey) (placed : List (Choice × Nat)) :
    placed.foldlM (fun t (c, i) => t.insertChoice key i c) t =
      if t.Admits key (placed.map (·.1.id)) then
        .ok { t with
          choices := t.choices ++ choiceRows key placed
          answers := t.answers ++ answerRows key placed }
      else .error (.engine .repeatedOption) := by
  induction placed generalizing t with
  | nil =>
    have hnil : t.Admits key [] := ⟨.nil, nofun⟩
    rw [List.map_nil, if_pos hnil]
    simp [choiceRows, answerRows, pure, Except.pure]
  | cons first rest ih =>
    obtain ⟨c, i⟩ := first
    rw [List.foldlM_cons]
    simp only [insertChoice]
    by_cases hfirst : t.hasChoice key c.id = true
    · rw [if_pos hfirst, if_neg fun h => ?_]
      · rfl
      · rw [h.2 c.id (by simp)] at hfirst
        cases hfirst
    · rw [if_neg hfirst]
      have hadded : t.Admits key (c.id :: rest.map (·.1.id)) ↔ t.hasChoice key c.id = false ∧
          Tables.Admits { t with
            choices := t.choices ++ [⟨key, c.id, i, c.name⟩]
            answers := t.answers ++ c.voters.toList.map (⟨key, c.id, ·⟩) } key
            (rest.map (·.1.id)) :=
        admits_cons fun other => by simp [hasChoice]
      simp only [List.map_cons, hadded, hfirst, true_and]
      refine (ih _).trans ?_
      simp [choiceRows, answerRows]

theorem insertPoll_eq (t : Tables) (p : Poll) (editedAt : Int) :
    t.insertPoll p editedAt =
      if (t.row? p.key).isSome then .error .alreadyExists
      else if t.Admits p.key (p.choices.map (·.id)) then .ok (t.withPoll p editedAt)
      else .error (.engine .repeatedOption) := by
  have hids : p.choices.zipIdx.map (·.1.id) = p.choices.map (·.id) := by
    have hfst : p.choices.zipIdx.map Prod.fst = p.choices := List.zipIdx_map_fst 0 p.choices
    conv_rhs => rw [← hfst, List.map_map]
    rfl
  simp only [insertPoll, insertChoices_eq, hids]
  rfl

/-- Answers for stored options can be added. -/
theorem insertAnswers_of_hasChoice {user : UserId} {chosen : List ChoiceId}
    (h : ∀ id ∈ chosen, t.hasChoice key id = true) :
    ∃ t', chosen.foldlM (fun t id => t.insertAnswer ⟨key, id, user⟩) t = .ok t' := by
  induction chosen generalizing t with
  | nil => exact ⟨t, rfl⟩
  | cons first rest ih =>
    obtain ⟨hfirst, hrest⟩ := List.forall_mem_cons.mp h
    rw [List.foldlM_cons, insertAnswer, if_pos hfirst]
    split
    · exact ih hrest
    · exact ih (t := { t with answers := t.answers ++ [⟨key, first, user⟩] }) hrest

theorem insertAnswers_of_not_hasChoice {user : UserId} {chosen : List ChoiceId} {id : ChoiceId}
    (hid : id ∈ chosen) (hmissing : t.hasChoice key id = false)
    (hold : ⟨key, id, user⟩ ∉ t.answers) :
    chosen.foldlM (fun t id => t.insertAnswer ⟨key, id, user⟩) t =
      .error (.engine .missingOption) := by
  induction chosen generalizing t with
  | nil => cases hid
  | cons first rest ih =>
    rw [List.foldlM_cons, insertAnswer]
    by_cases hfirst : first = id
    · subst hfirst
      rw [if_neg hold, hmissing]
      rfl
    · have hrest : id ∈ rest := (List.mem_cons.mp hid).resolve_left (Ne.symm hfirst)
      split
      · exact ih hrest hmissing hold
      · split
        · refine ih (t := { t with answers := t.answers ++ [⟨key, first, user⟩] }) hrest hmissing ?_
          simpa [Ne.symm hfirst] using hold
        · rfl

end Tables

namespace PollChange

open Tables

/-- The change, with the millisecond that it leaves as that of the last edit. -/
def apply (editedAt : Int) (t : Tables) : PollChange → Except StorageError Tables
  | insert p => t.insertPoll p editedAt
  | update key title description s => t.updatePoll key title description s editedAt
  | answer key user chosen => t.replaceAnswers key user chosen editedAt

/-- What is in the way of a change. -/
def fault? (t : Tables) : PollChange → Option StorageError
  | insert p =>
    if (t.row? p.key).isSome then some .alreadyExists
    else if t.Admits p.key (p.choices.map (·.id)) then none
    else some (.engine .repeatedOption)
  | update key .. => if (t.row? key).isSome then none else some .notFound
  | answer key _ chosen =>
    if (t.row? key).isNone then some .notFound
    else if chosen.all (t.hasChoice key) then none
    else some (.engine .missingOption)

/-- A change fails with the fault that is in its way. -/
theorem apply_of_fault? {c : PollChange} {t : Tables} {e : StorageError} (h : c.fault? t = some e)
    (editedAt : Int) : c.apply editedAt t = .error e := by
  cases c with
  | insert p =>
    simp only [fault?] at h
    rw [apply, insertPoll_eq]
    split at h
    · next hold =>
      cases h
      rw [if_pos hold]
    · next hnew =>
      rw [if_neg hnew]
      split at h
      · cases h
      · next hclash =>
        cases h
        rw [if_neg hclash]
  | update key title description s =>
    simp only [fault?] at h
    rw [apply, updatePoll, modifyRow?]
    split at h
    · cases h
    · next hnone =>
      cases h
      rw [if_neg hnone]
  | answer key user chosen =>
    simp only [fault?] at h
    rw [apply, replaceAnswers, modifyRow?]
    split at h
    · next hnone =>
      cases h
      rw [Option.isNone_iff_eq_none.mp hnone]
      rfl
    · next hrow =>
      split at h
      · cases h
      · next hchosen =>
        cases h
        rw [if_pos (by simpa [Option.isSome_iff_ne_none] using hrow)]
        obtain ⟨id, hid, hmissing⟩ : ∃ id ∈ chosen, t.hasChoice key id = false := by
          simpa using hchosen
        exact insertAnswers_of_not_hasChoice hid hmissing (by simp [withdraw])

theorem apply_of_no_fault {c : PollChange} {t : Tables} (h : c.fault? t = none) (editedAt : Int) :
    ∃ t', c.apply editedAt t = .ok t' := by
  cases c with
  | insert p =>
    simp only [fault?] at h
    rw [apply, insertPoll_eq]
    split at h
    · cases h
    · next hnew =>
      split at h
      · next hadmits => exact ⟨_, by rw [if_neg hnew, if_pos hadmits]⟩
      · cases h
  | update key title description s =>
    simp only [fault?] at h
    split at h
    · next hrow => exact ⟨_, if_pos hrow⟩
    · cases h
  | answer key user chosen =>
    simp only [fault?] at h
    split at h
    · cases h
    · next hrow =>
      split at h
      · next hchosen =>
        have hstored : (t.row? key).isSome = true := by
          simpa [Option.isSome_iff_ne_none] using hrow
        rw [apply, replaceAnswers, modifyRow?, if_pos hstored]
        exact insertAnswers_of_hasChoice fun id hid => List.all_eq_true.mp hchosen id hid
      · cases h

end PollChange
end PollKeeper
