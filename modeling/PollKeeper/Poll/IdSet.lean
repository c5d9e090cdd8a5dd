/-!
# Sets of ids

Finite sets of numbers, listed in ascending order. The view of a set is `toList`; every operation
comes with a lemma that says which ids are in its result.
-/

namespace PollKeeper

/-- A finite set of ids, as its members in ascending order. -/
structure IdSet where
  toList : List Int
  sorted : toList.Pairwise (· < ·)
  deriving DecidableEq

namespace IdSet

@[ext] theorem ext {s t : IdSet} (h : s.toList = t.toList) : s = t := by
  cases s; cases t; cases h; rfl

def empty : IdSet := ⟨[], .nil⟩

instance : Membership Int IdSet := ⟨fun s x => x ∈ s.toList⟩

@[simp] theorem mem_toList {s : IdSet} {x : Int} : x ∈ s.toList ↔ x ∈ s := .rfl

instance (x : Int) (s : IdSet) : Decidable (x ∈ s) := inferInstanceAs (Decidable (x ∈ s.toList))

@[simp] theorem not_mem_empty (x : Int) : x ∉ empty := List.not_mem_nil

/-- Puts an id in its place in an ascending list that may hold it already. -/
def insertSorted (x : Int) : List Int → List Int
  | [] => [x]
  | y :: rest =>
    if x < y then x :: y :: rest
    else if x = y then y :: rest
    else y :: insertSorted x rest

theorem mem_insertSorted {x z : Int} {xs : List Int} :
    z ∈ insertSorted x xs ↔ z = x ∨ z ∈ xs := by
  induction xs with
  | nil => simp [insertSorted]
  | cons y rest ih => grind [insertSorted]

theorem pairwise_insertSorted {x : Int} {xs : List Int} (h : xs.Pairwise (· < ·)) :
    (insertSorted x xs).Pairwise (· < ·) := by
  induction xs with
  | nil => simp [insertSorted]
  | cons y rest ih =>
    obtain ⟨hy, hrest⟩ := List.pairwise_cons.1 h
    simp only [insertSorted]
    split
    · refine List.pairwise_cons.2 ⟨fun z hz => ?_, h⟩
      rcases List.mem_cons.1 hz with rfl | hz
      · assumption
      · have := hy z hz
        omega
    · split
      · exact h
      · refine List.pairwise_cons.2 ⟨fun z hz => ?_, ih hrest⟩
        rcases mem_insertSorted.1 hz with rfl | hz
        · omega
        · exact hy z hz

def insert (x : Int) (s : IdSet) : IdSet :=
  ⟨insertSorted x s.toList, pairwise_insertSorted s.sorted⟩

@[simp] theorem mem_insert {x z : Int} {s : IdSet} : z ∈ s.insert x ↔ z = x ∨ z ∈ s :=
  mem_insertSorted

def ofList (xs : List Int) : IdSet := xs.foldr insert empty

@[simp] theorem mem_ofList {x : Int} {xs : List Int} : x ∈ ofList xs ↔ x ∈ xs := by
  induction xs with
  | nil => simp [ofList]
  | cons y rest ih => simp only [ofList, List.foldr_cons, mem_insert, List.mem_cons] at *; rw [ih]

def filter (p : Int → Bool) (s : IdSet) : IdSet := ⟨s.toList.filter p, s.sorted.filter _⟩

@[simp] theorem mem_filter {p : Int → Bool} {x : Int} {s : IdSet} :
    x ∈ s.filter p ↔ x ∈ s ∧ p x = true := List.mem_filter

def erase (x : Int) (s : IdSet) : IdSet := s.filter (· != x)

@[simp] theorem mem_erase {x z : Int} {s : IdSet} : z ∈ s.erase x ↔ z ∈ s ∧ z ≠ x := by
  simp [erase]

def size (s : IdSet) : Nat := s.toList.length

end IdSet

end PollKeeper
