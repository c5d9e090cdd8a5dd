import Mathlib.Data.Int.ConditionallyCompleteOrder
import Mathlib.Data.List.MinMax
import Mathlib.Order.ConditionallyCompleteLattice.Basic
import PollKeeper.Proofs.Poll.Validity
import PollKeeper.Proofs.Storage.Notes
import PollKeeper.Proofs.Store.Outcome

/-!
# Seen edits

The tables keep the latest acknowledged edit of every poll. With none below every edit, an
acknowledgement is a maximum: a list of edits raises the note of a poll to the largest stamp that it
holds for it. So it does not matter in which order, in which portions or how often edits are
acknowledged, and an acknowledgement that comes late takes nothing back.
-/

namespace PollKeeper

/-- The stamps that a list holds for a poll. -/
def EditStamp.timesOf (edits : List EditStamp) (key : PollKey) : List Int :=
  (edits.filter (·.key = key)).map (·.editedAt)

private theorem EditStamp.mem_timesOf {edits : List EditStamp} {key : PollKey} {time : Int} :
    time ∈ timesOf edits key ↔ ⟨key, time⟩ ∈ edits := by
  simp only [timesOf, List.mem_map, List.mem_filter, decide_eq_true_eq]
  constructor
  · rintro ⟨e, ⟨he, rfl⟩, rfl⟩
    exact he
  · intro h
    exact ⟨⟨key, time⟩, ⟨h, rfl⟩, rfl⟩

namespace PollRow

open EditStamp

variable {r : PollRow}

/-- The latest acknowledged edit, the least value if there is none. -/
def seen (r : PollRow) : WithBot Int := r.editSeenAt

/-- The row with another note of the latest acknowledged edit. -/
def noting (r : PollRow) (seen : WithBot Int) : PollRow := { r with editSeenAt := seen }

@[simp] theorem seen_noting (r : PollRow) (seen : WithBot Int) : (r.noting seen).seen = seen := rfl

@[simp] theorem key_noting (r : PollRow) (seen : WithBot Int) : (r.noting seen).key = r.key := rfl

@[simp] theorem noting_noting (r : PollRow) (first last : WithBot Int) :
    (r.noting first).noting last = r.noting last := rfl

/-- One acknowledgement is a maximum. -/
theorem withSeen_eq_noting (r : PollRow) (edit : Int) :
    r.withSeen edit = r.noting (max r.seen edit) := by
  simp only [withSeen, noting, seen]
  cases hseen : r.editSeenAt with
  | none => exact congrArg r.noting (max_eq_right bot_le).symm
  | some time =>
    by_cases hlt : time < edit
    · have hmax : max (time : WithBot Int) edit = edit := max_eq_right (WithBot.coe_le_coe.mpr hlt.le)
      exact (if_pos hlt).trans (congrArg r.noting hmax.symm)
    · have hmax : max (time : WithBot Int) edit = time :=
        max_eq_left (WithBot.coe_le_coe.mpr (not_lt.mp hlt))
      have hsame : r = r.noting time := by
        cases r
        cases hseen
        rfl
      exact (if_neg hlt).trans (hsame.trans (congrArg r.noting hmax.symm))

/-- A list of acknowledgements is a maximum over those of the poll. -/
theorem afterSeen_eq_noting (r : PollRow) (edits : List EditStamp) :
    r.afterSeen edits = r.noting (max r.seen (timesOf edits r.key).maximum) := by
  induction edits generalizing r with
  | nil => exact congrArg r.noting (max_eq_left bot_le).symm
  | cons e rest ih =>
    rw [afterSeen_cons]
    split
    · next hkey =>
      have htimes : timesOf (e :: rest) r.key = e.editedAt :: timesOf rest r.key := by
        simp only [timesOf, List.filter_cons, hkey, decide_true, if_true, List.map_cons]
      rw [withSeen_eq_noting, ih, seen_noting, key_noting, noting_noting, htimes, List.maximum_cons,
        max_assoc]
    · next hkey =>
      have htimes : timesOf (e :: rest) r.key = timesOf rest r.key := by
        simp only [timesOf, List.filter_cons, hkey, decide_false, Bool.false_eq_true, if_false]
      rw [ih, htimes]

end PollRow

theorem EditStamp.maximum_timesOf_congr {edits others : List EditStamp}
    (h : ∀ e, e ∈ edits ↔ e ∈ others) (key : PollKey) :
    (timesOf edits key).maximum = (timesOf others key).maximum := by
  refine le_antisymm (List.maximum_mono fun time htime => ?_) (List.maximum_mono fun time htime => ?_)
  · exact mem_timesOf.mpr ((h _).mp (mem_timesOf.mp htime))
  · exact mem_timesOf.mpr ((h _).mpr (mem_timesOf.mp htime))

namespace Tables

open EditStamp

variable {t : Tables}

/-- Acknowledges several lists of edits, one after the other. -/
def markAllSeen (t : Tables) (groups : List (List EditStamp)) : Tables :=
  groups.foldl (fun t edits => (t.markSeen edits).2) t

/-- To acknowledge lists one by one is to acknowledge them joined. -/
theorem markAllSeen_eq_flatten (t : Tables) (groups : List (List EditStamp)) :
    t.markAllSeen groups = (t.markSeen groups.flatten).2 := by
  simp only [markAllSeen, markSeen, countChanges_snd]
  rw [List.foldl_flatten]

/-- With distinct keys, the row that is tested is the row that is changed. -/
theorem acknowledge_eq_modifyRow (hkeys : (t.polls.map (·.key)).Nodup) (e : EditStamp) :
    (t.modifyRowIf e.key (fun r => r.withSeen e.editedAt ≠ r) (·.withSeen e.editedAt)).2 =
      t.modifyRow e.key (·.withSeen e.editedAt) := by
  rw [modifyRowIf_snd]
  split
  · rfl
  · next hno =>
    have hsame : t.polls.map (fun r => if r.key = e.key then r.withSeen e.editedAt else r) = t.polls := by
      refine (List.map_congr_left fun r hr => ?_).trans (List.map_id _)
      split
      · next hkey =>
        have hrow : t.row? e.key = some r := hkey ▸ row?_of_mem hkeys hr
        rw [hrow] at hno
        simpa using hno
      · rfl
    exact congrArg (fun polls => { t with polls }) hsame.symm

theorem markSeen_eq_map (hkeys : (t.polls.map (·.key)).Nodup) (edits : List EditStamp) :
    (t.markSeen edits).2 = { t with polls := t.polls.map (·.afterSeen edits) } := by
  rw [markSeen, countChanges_snd]
  induction edits generalizing t with
  | nil => exact congrArg (fun polls => { t with polls }) (List.map_id _).symm
  | cons e rest ih =>
    have hkeys' : ((t.modifyRow e.key (·.withSeen e.editedAt)).polls.map (·.key)).Nodup := by
      rwa [keys_modifyRow (keepsKey_withSeen e.editedAt)]
    rw [List.foldl_cons, acknowledge_eq_modifyRow hkeys, ih hkeys']
    refine congrArg (fun polls => { t with polls }) ?_
    simp only [modifyRow, List.map_map]
    refine List.map_congr_left fun r _ => ?_
    rw [Function.comp_apply, PollRow.afterSeen_cons]
    by_cases hkey : r.key = e.key
    · rw [if_pos hkey, if_pos hkey.symm]
    · rw [if_neg hkey, if_neg (Ne.symm hkey)]

theorem markSeen_congr (hkeys : (t.polls.map (·.key)).Nodup) {edits others : List EditStamp}
    (h : ∀ e, e ∈ edits ↔ e ∈ others) : (t.markSeen edits).2 = (t.markSeen others).2 := by
  rw [markSeen_eq_map hkeys, markSeen_eq_map hkeys]
  refine congrArg (fun polls => { t with polls }) (List.map_congr_left fun r _ => ?_)
  rw [r.afterSeen_eq_noting, r.afterSeen_eq_noting, maximum_timesOf_congr h]

end Tables

/-- An open store acknowledges edits in its tables, and touches nothing else. -/
theorem Store.outcome_markSeen {s : Store} (hopen : s.database.closed = false) (edits : List PollEdit) :
    (Store.markSeen edits).outcome s =
      let marked := s.database.tables.markSeen (edits.map (·.toStamp))
      (.ok marked.1, { s with database := ⟨marked.2, false⟩ }) := by
  obtain ⟨⟨t, closed⟩, caches, locks⟩ := s
  subst hopen
  cases edits with
  | nil => rfl
  | cons edit rest =>
    simp only [Store.markSeen, List.isEmpty_cons, Bool.false_eq_true, if_false, StoreAction.count,
      StoreAction.outcome_change]
    rfl

namespace Tables

open EditStamp

variable {t : Tables}

/-- Acknowledged edits raise the note of every stored poll to the largest stamp that was listed for
it, and nothing else changes. In any order, in any portions and any number of times, the same edits
leave the same tables. No note goes down, and of the polls whose last edit was unseen just those stay
unseen for which nothing so late was listed. -/
theorem markSeen_takes_maximum (hkeys : (t.polls.map (·.key)).Nodup) (edits : List EditStamp) :
    (t.markSeen edits).2 =
        { t with polls := t.polls.map fun r => r.noting (max r.seen (timesOf edits r.key).maximum) } ∧
      (∀ groups : List (List EditStamp), (∀ e, e ∈ groups.flatten ↔ e ∈ edits) →
        t.markAllSeen groups = (t.markSeen edits).2) ∧
      (∀ r ∈ t.polls, ∃ r' ∈ (t.markSeen edits).2.polls, r'.key = r.key ∧ r.seen ≤ r'.seen ∧
        (r'.hasUnseenEdit = true ↔
          r.hasUnseenEdit = true ∧ ∀ e ∈ edits, e.key = r.key → e.editedAt < r.editedAt)) ∧
      ∀ s : Store, s.database = ⟨t, false⟩ → ∀ observed : List PollEdit,
        observed.map (·.toStamp) = edits →
          (Store.markSeen observed).outcome s =
            (.ok (t.markSeen edits).1, { s with database := ⟨(t.markSeen edits).2, false⟩ }) := by
  have hmap : (t.markSeen edits).2 =
      { t with polls := t.polls.map fun r => r.noting (max r.seen (timesOf edits r.key).maximum) } := by
    rw [markSeen_eq_map hkeys]
    refine congrArg (fun polls => { t with polls }) (List.map_congr_left fun r _ => ?_)
    exact r.afterSeen_eq_noting edits
  refine ⟨hmap, fun groups hsame => ?_, fun r hr => ?_, fun s hs observed hobserved => ?_⟩
  · rw [markAllSeen_eq_flatten, markSeen_congr hkeys hsame]
  · have hmem : r.noting (max r.seen (timesOf edits r.key).maximum) ∈ (t.markSeen edits).2.polls := by
      rw [hmap]
      exact List.mem_map_of_mem hr
    have hedited : (r.afterSeen edits).editedAt = r.editedAt := by
      rw [r.afterSeen_eq_noting]
      rfl
    refine ⟨_, hmem, rfl, le_max_left r.seen _, ?_⟩
    rw [← r.afterSeen_eq_noting, PollRow.hasUnseenEdit_iff, PollRow.hasUnseenEdit_iff, hedited,
      PollRow.seenBelow_afterSeen, and_comm]
  · subst hobserved
    rw [Store.outcome_markSeen (by rw [hs]), hs]

def notedLunch : Tables :=
  let row : PollRow := .ofPoll .lunch 1000
  { empty with polls := [row, { row with key := ⟨1, 8⟩, editSeenAt := some 900 }] }

/-- A poll is listed twice, one stamp is older than the note, and one poll is not stored. -/
theorem markSeen_takes_maximum_of_stale :
    let edits : List EditStamp := [⟨⟨1, 7⟩, 1000⟩, ⟨⟨1, 8⟩, 300⟩, ⟨⟨1, 9⟩, 5⟩, ⟨⟨1, 7⟩, 200⟩]
    let portions := [[edits[3]], [], [edits[2], edits[0], edits[3]], [edits[1]]]
    (notedLunch.polls.map (·.key)).Nodup ∧
      (notedLunch.markSeen edits).2.polls.map (·.editSeenAt) = [some 1000, some 900] ∧
      (notedLunch.markSeen edits).2.polls.map (·.hasUnseenEdit) = [false, true] ∧
      (∀ e, e ∈ portions.flatten ↔ e ∈ edits) ∧
      notedLunch.markAllSeen portions = (notedLunch.markSeen edits).2 := by
  intro edits portions
  have hkeys : (notedLunch.polls.map (·.key)).Nodup := by decide
  have hsame : ∀ e, e ∈ portions.flatten ↔ e ∈ edits := by
    intro e
    simp only [portions, edits, List.flatten_cons, List.flatten_nil, List.mem_append, List.mem_cons,
      List.not_mem_nil, List.getElem_cons_succ, List.getElem_cons_zero]
    tauto
  obtain ⟨hmap, hgroups, -⟩ := markSeen_takes_maximum hkeys edits
  refine ⟨hkeys, ?_, ?_, hsame, hgroups portions hsame⟩
  · rw [hmap]
    decide
  · rw [hmap]
    decide

end Tables
end PollKeeper
