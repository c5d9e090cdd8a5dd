import PollKeeper.Proofs.Storage.Slice

/-!
# Notes about edits and refreshes

Which rows change when edits are acknowledged, when final refreshes are noted and when refreshes are
kept for later, and what the tables list as unseen.
-/

namespace PollKeeper

namespace PollRow

variable {r : PollRow} {edits : List EditStamp}

/-- The row after some edits were acknowledged; those of other polls change nothing. -/
def afterSeen (r : PollRow) (edits : List EditStamp) : PollRow :=
  (edits.filter (·.key = r.key)).foldl (fun r e => r.withSeen e.editedAt) r

theorem withSeen_eq (r : PollRow) (edit : Int) :
    ∃ seen, r.withSeen edit = { r with editSeenAt := seen } ∧
      (seen = r.editSeenAt ∨ seen = some edit) := by
  simp only [withSeen]
  split
  · exact ⟨some edit, rfl, .inr rfl⟩
  · split
    · exact ⟨some edit, rfl, .inr rfl⟩
    · exact ⟨r.editSeenAt, rfl, .inl rfl⟩

theorem afterSeen_cons (r : PollRow) (e : EditStamp) (rest : List EditStamp) :
    r.afterSeen (e :: rest) =
      if e.key = r.key then (r.withSeen e.editedAt).afterSeen rest else r.afterSeen rest := by
  have hkey : (r.withSeen e.editedAt).key = r.key := Tables.keepsKey_withSeen e.editedAt r
  simp only [afterSeen, List.filter_cons, hkey, decide_eq_true_eq]
  split
  · rfl
  · rfl

/-- Only the note of the last acknowledged edit can change, and only to an edit in the list. -/
theorem afterSeen_eq (r : PollRow) (edits : List EditStamp) :
    ∃ seen, r.afterSeen edits = { r with editSeenAt := seen } ∧
      (seen = r.editSeenAt ∨ ∃ e ∈ edits, e.key = r.key ∧ seen = some e.editedAt) := by
  induction edits generalizing r with
  | nil => exact ⟨r.editSeenAt, rfl, .inl rfl⟩
  | cons e rest ih =>
    rw [afterSeen_cons]
    split
    · next hkey =>
      obtain ⟨first, hfirst, hseen⟩ := r.withSeen_eq e.editedAt
      rw [hfirst]
      obtain ⟨seen, heq, hlast⟩ := ih { r with editSeenAt := first }
      refine ⟨seen, heq, ?_⟩
      rcases hlast with rfl | ⟨e', he', hkey', rfl⟩
      · rcases hseen with rfl | rfl
        · exact .inl rfl
        · exact .inr ⟨e, List.mem_cons_self, hkey, rfl⟩
      · exact .inr ⟨e', List.mem_cons_of_mem _ he', hkey', rfl⟩
    · obtain ⟨seen, heq, hlast⟩ := ih r
      refine ⟨seen, heq, hlast.imp_right ?_⟩
      rintro ⟨e', he', hkey', rfl⟩
      exact ⟨e', List.mem_cons_of_mem _ he', hkey', rfl⟩

def SeenBelow (r : PollRow) (bound : Int) : Prop :=
  ∀ seen, r.editSeenAt = some seen → seen < bound

theorem hasUnseenEdit_iff : r.hasUnseenEdit = true ↔ r.SeenBelow r.editedAt := by
  simp only [hasUnseenEdit, SeenBelow]
  cases r.editSeenAt <;> simp

private theorem seenBelow_withSeen {edit bound : Int} :
    (r.withSeen edit).SeenBelow bound ↔ edit < bound ∧ r.SeenBelow bound := by
  simp only [SeenBelow, withSeen]
  cases hseen : r.editSeenAt with
  | none => simp
  | some seen =>
    simp only [Option.some.injEq, forall_eq']
    split
    · simp only [Option.some.injEq, forall_eq']
      omega
    · simp only [hseen, Option.some.injEq, forall_eq']
      omega

/-- An older acknowledgement that comes late takes nothing back. -/
theorem seenBelow_afterSeen {bound : Int} :
    (r.afterSeen edits).SeenBelow bound ↔
      (∀ e ∈ edits, e.key = r.key → e.editedAt < bound) ∧ r.SeenBelow bound := by
  induction edits generalizing r with
  | nil => simp [afterSeen]
  | cons e rest ih =>
    have hkey : (r.withSeen e.editedAt).key = r.key := Tables.keepsKey_withSeen e.editedAt r
    rw [afterSeen_cons, List.forall_mem_cons]
    split
    · next h => rw [ih, hkey, seenBelow_withSeen, forall_prop_of_true h, and_left_comm, and_assoc]
    · next h => rw [ih, forall_prop_of_false h, true_and]

end PollRow

namespace Tables

variable {t : Tables} {key : PollKey}

theorem countChanges_snd {α : Type} (change : Tables → α → Nat × Tables) (t : Tables)
    (items : List α) :
    (countChanges change t items).2 = items.foldl (fun t item => (change t item).2) t := by
  have hfold : ∀ (n : Nat) (t : Tables),
      (items.foldl (fun r item => (r.1 + (change r.2 item).1, (change r.2 item).2)) (n, t)).2 =
        items.foldl (fun t item => (change t item).2) t := by
    induction items with
    | nil => exact fun _ _ => rfl
    | cons item rest ih => exact fun n t => ih _ _
  exact hfold 0 t

theorem modifyRowIf_snd (t : Tables) (key : PollKey) (p : PollRow → Bool)
    (f : PollRow → PollRow) :
    (t.modifyRowIf key p f).2 = if (t.row? key).any p then t.modifyRow key f else t := by
  simp only [modifyRowIf]
  cases t.row? key with
  | none => rfl
  | some r => exact apply_ite Prod.snd _ _ _

theorem row?_modifyRowIf {f : PollRow → PollRow} (hf : KeepsKey f) (p : PollRow → Bool)
    (t : Tables) (key other : PollKey) :
    (t.modifyRowIf key p f).2.row? other =
      if other = key then (t.row? key).map fun r => if p r then f r else r else t.row? other := by
  rw [modifyRowIf_snd]
  split
  · next hany =>
    cases hr : t.row? key with
    | none => rw [hr] at hany; cases hany
    | some r =>
      rw [hr, Option.any_some] at hany
      rw [row?_modifyRow hf, hr, Option.map_some, Option.map_some, if_pos hany]
  · next hany =>
    split
    · next hkey =>
      subst hkey
      cases hr : t.row? other with
      | none => rfl
      | some r =>
        rw [hr, Option.any_some] at hany
        rw [Option.map_some, if_neg hany]
    · rfl

theorem pending_modifyRowIf (f : PollRow → PollRow) (p : PollRow → Bool) (t : Tables)
    (key : PollKey) : (t.modifyRowIf key p f).2.pending = t.pending := by
  rw [modifyRowIf_snd]
  split <;> rfl

theorem row?_markSeen (edits : List EditStamp) (t : Tables) (key : PollKey) :
    (t.markSeen edits).2.row? key = (t.row? key).map (·.afterSeen edits) := by
  rw [markSeen, countChanges_snd]
  induction edits generalizing t with
  | nil =>
    rw [List.foldl_nil]
    cases t.row? key <;> rfl
  | cons e rest ih =>
    rw [List.foldl_cons, ih, row?_modifyRowIf (keepsKey_withSeen e.editedAt)]
    have hchanged : ∀ r : PollRow,
        (if decide (r.withSeen e.editedAt ≠ r) then r.withSeen e.editedAt else r) =
          r.withSeen e.editedAt := by
      intro r
      split
      · rfl
      · next h =>
        have hsame : r.withSeen e.editedAt = r := by simpa using h
        exact hsame.symm
    split
    · next hkey =>
      subst hkey
      rw [Option.map_map]
      apply Option.map_congr
      intro r hr
      rw [Function.comp_apply, hchanged, PollRow.afterSeen_cons, if_pos (key_of_row? hr).symm]
    · next hkey =>
      apply Option.map_congr
      intro r hr
      rw [PollRow.afterSeen_cons, if_neg]
      rw [key_of_row? hr]
      exact Ne.symm hkey

theorem pending_markSeen (edits : List EditStamp) (t : Tables) :
    (t.markSeen edits).2.pending = t.pending :=
  countChanges_keeps (P := fun u => u.pending = t.pending)
    (fun u _ h => (pending_modifyRowIf _ _ u _).trans h) edits rfl

theorem row?_markFinal (keys : List PollKey) (t : Tables) (key : PollKey) :
    (t.markFinal keys).2.row? key = (t.row? key).map fun r =>
      if key ∈ keys ∧ r.finalRefreshed = 0 then { r with finalRefreshed := 1 } else r := by
  rw [markFinal, countChanges_snd]
  induction keys generalizing t with
  | nil => simp
  | cons k rest ih =>
    rw [List.foldl_cons, ih, row?_modifyRowIf (invisible_finalRefreshed 1).keepsKey]
    split
    · next hkey =>
      subst hkey
      rw [Option.map_map]
      apply Option.map_congr
      intro r _
      by_cases hr : r.finalRefreshed = 0 <;> simp [hr]
    · next hkey =>
      apply Option.map_congr
      intro r _
      simp [hkey]

theorem pending_markFinal (keys : List PollKey) (t : Tables) :
    (t.markFinal keys).2.pending = t.pending :=
  countChanges_keeps (P := fun u => u.pending = t.pending)
    (fun u _ h => (pending_modifyRowIf _ _ u _).trans h) keys rfl

theorem savePending_adds (keys : List PollKey) (t : Tables) :
    ∃ added, (t.savePending keys).2 = { t with pending := t.pending ++ added } ∧ added.Nodup ∧
      ∀ k, k ∈ added ↔ k ∈ keys ∧ k ∉ t.pending := by
  rw [savePending, countChanges_snd]
  induction keys generalizing t with
  | nil => exact ⟨[], by simp, .nil, by simp⟩
  | cons key rest ih =>
    rw [List.foldl_cons]
    split
    · next hold =>
      obtain ⟨added, heq, hnodup, hmem⟩ := ih t
      refine ⟨added, heq, hnodup, fun k => (hmem k).trans (and_congr_left fun hnew => ?_)⟩
      rw [List.mem_cons, or_iff_right]
      rintro rfl
      exact hnew hold
    · next hnew =>
      obtain ⟨added, heq, hnodup, hmem⟩ := ih { t with pending := t.pending ++ [key] }
      simp only [List.mem_append, List.mem_singleton, not_or] at hmem
      refine ⟨key :: added, by simpa using heq,
        List.nodup_cons.mpr ⟨fun h => ((hmem key).mp h).2.2 rfl, hnodup⟩, fun k => ?_⟩
      rw [List.mem_cons, List.mem_cons, hmem k]
      by_cases hkey : k = key
      · simp [hkey, hnew]
      · simp [hkey]

theorem savePending_eq (keys : List PollKey) (t : Tables) :
    ∃ added, (t.savePending keys).2 = { t with pending := t.pending ++ added } ∧
      ∀ k, k ∈ t.pending ++ added ↔ k ∈ t.pending ∨ k ∈ keys := by
  obtain ⟨added, heq, -, hmem⟩ := savePending_adds keys t
  refine ⟨added, heq, fun k => ?_⟩
  rw [List.mem_append, hmem k]
  by_cases hold : k ∈ t.pending <;> simp [hold]

theorem mem_pendingOf {guild : GuildId} :
    key ∈ t.pendingOf guild ↔ key ∈ t.pending ∧ key.guild = guild := by
  simp [pendingOf, List.mem_mergeSort]

theorem mem_unseenSince {cutoff : Int} {e : EditStamp} :
    e ∈ t.unseenSince cutoff ↔ ∃ r ∈ t.polls, (cutoff ≤ r.editedAt ∧ r.hasUnseenEdit = true) ∧
      (⟨r.key, r.editedAt⟩ : EditStamp) = e := by
  simp [unseenSince, List.mem_mergeSort, and_assoc]

end Tables
end PollKeeper
