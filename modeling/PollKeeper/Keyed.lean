/-!
# Values under keys

A finite map that keeps its keys in the order in which they came. Its view is `get?`; the lemmas
say what each operation does to it.
-/

namespace PollKeeper

/-- Values under distinct keys, the longest held first. -/
structure Keyed (κ : Type) (α : Type) where
  entries : List (κ × α)
  distinct : (entries.map (·.1)).Nodup

namespace Keyed

variable {κ α : Type}

def empty : Keyed κ α := ⟨[], .nil⟩

def keys (m : Keyed κ α) : List κ := m.entries.map (·.1)

def size (m : Keyed κ α) : Nat := m.entries.length

def filter (p : κ × α → Bool) (m : Keyed κ α) : Keyed κ α :=
  ⟨m.entries.filter p, m.distinct.sublist (List.filter_sublist.map _)⟩

variable [DecidableEq κ]

def get? (m : Keyed κ α) (k : κ) : Option α := m.entries.lookup k

def erase (m : Keyed κ α) (k : κ) : Keyed κ α := m.filter (·.1 ≠ k)

def replaceIn (k : κ) (v : α) (entries : List (κ × α)) : List (κ × α) :=
  entries.map fun e => if e.1 = k then (k, v) else e

theorem map_fst_replaceIn (k : κ) (v : α) (entries : List (κ × α)) :
    (replaceIn k v entries).map (·.1) = entries.map (·.1) := by
  induction entries with
  | nil => rfl
  | cons e rest ih =>
    simp only [replaceIn, List.map_cons] at ih ⊢
    rw [ih]
    split <;> simp_all

/-- Puts a value under a key: in the place of the one that was there, else last. -/
def set (m : Keyed κ α) (k : κ) (v : α) : Keyed κ α :=
  if h : k ∈ m.keys then ⟨replaceIn k v m.entries, by rw [map_fst_replaceIn]; exact m.distinct⟩
  else
    ⟨m.entries ++ [(k, v)], by
      rw [List.map_append, List.nodup_append]
      refine ⟨m.distinct, by simp, ?_⟩
      intro a ha b hb
      simp only [List.map_cons, List.map_nil, List.mem_singleton] at hb
      rintro rfl
      exact h (hb ▸ ha)⟩

@[simp] theorem get?_empty (k : κ) : (empty : Keyed κ α).get? k = none := rfl

theorem get?_filter (m : Keyed κ α) (p : κ × α → Bool) (k : κ) :
    (m.filter p).get? k = (m.get? k).filter fun v => p (k, v) := by
  obtain ⟨entries, distinct⟩ := m
  simp only [get?, filter]
  induction entries with
  | nil => rfl
  | cons e rest ih =>
    obtain ⟨i, v⟩ := e
    obtain ⟨hnew, hrest⟩ := List.nodup_cons.mp distinct
    have hskip : k ≠ i → ∀ l : List (κ × α), ((i, v) :: l).lookup k = l.lookup k := by
      intro hk l
      simp [List.lookup_cons, beq_eq_false_iff_ne.2 hk]
    rw [List.filter_cons]
    by_cases hk : k = i
    · subst hk
      -- No later entry has this key, so nothing takes the place of a dropped one.
      have hgone : (rest.filter p).lookup k = none := by
        refine List.lookup_eq_none_iff.mpr fun e he => ?_
        rw [bne_iff_ne]
        rintro rfl
        exact hnew (List.mem_map.mpr ⟨e, (List.mem_filter.mp he).1, rfl⟩)
      cases hp : p (k, v) with
      | true => simp [Option.filter, hp]
      | false => simp [Option.filter, hp, hgone]
    · rw [hskip hk, ← ih hrest]
      split
      · exact hskip hk _
      · rfl

theorem get?_filter_key (m : Keyed κ α) (p : κ → Bool) (j : κ) :
    (m.filter (p ·.1)).get? j = if p j then m.get? j else none := by
  rw [get?_filter]
  cases m.get? j <;> simp [Option.filter]

theorem get?_of_filter_key {m : Keyed κ α} {p : κ → Bool} {j : κ} {v : α}
    (h : (m.filter (p ·.1)).get? j = some v) : m.get? j = some v := by
  rw [get?_filter_key] at h
  split at h
  · exact h
  · cases h

@[simp] theorem get?_erase (m : Keyed κ α) (k j : κ) :
    (m.erase k).get? j = if j = k then none else m.get? j := by
  refine (m.get?_filter_key (· ≠ k) j).trans ?_
  by_cases h : j = k <;> simp [h]

theorem lookup_replaceIn (k j : κ) (v : α) (entries : List (κ × α)) :
    (replaceIn k v entries).lookup j =
      if j = k ∧ k ∈ entries.map (·.1) then some v else entries.lookup j := by
  induction entries with
  | nil => simp [replaceIn]
  | cons e rest ih =>
    obtain ⟨i, w⟩ := e
    simp only [replaceIn, List.map_cons] at ih ⊢
    by_cases hi : i = k <;> by_cases hj : j = k <;> simp_all [List.lookup_cons] <;> grind

theorem lookup_append_single (k j : κ) (v : α) (entries : List (κ × α))
    (h : k ∉ entries.map (·.1)) :
    (entries ++ [(k, v)]).lookup j = if j = k then some v else entries.lookup j := by
  induction entries with
  | nil =>
    by_cases hj : j = k
    · simp [hj]
    · simp [List.lookup_cons, beq_eq_false_iff_ne.2 hj, hj]
  | cons e rest ih =>
    obtain ⟨i, w⟩ := e
    simp only [List.map_cons, List.mem_cons, not_or] at h
    by_cases hj : j = i
    · have hk : j ≠ k := fun hjk => h.1 (hjk ▸ hj)
      simp [hj ▸ hk, hj]
    · simp only [List.cons_append, List.lookup_cons, beq_eq_false_iff_ne.2 hj]
      exact ih h.2

@[simp] theorem get?_set (m : Keyed κ α) (k j : κ) (v : α) :
    (m.set k v).get? j = if j = k then some v else m.get? j := by
  unfold set get?
  split
  next h => rw [lookup_replaceIn]; simp only [keys] at h; simp [h]
  next h => exact lookup_append_single k j v m.entries h

end Keyed

end PollKeeper
