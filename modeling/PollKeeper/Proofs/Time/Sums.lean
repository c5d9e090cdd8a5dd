import PollKeeper.Time.Instant

/-!
# Clamped sums

How far from the epoch the instant lies that `Instant.plus` and `Instant.minus` give: a sum within the range
is exact to the nanosecond, and one that leaves it becomes the end of the range on that side. That holds for
spans of any length, those that are no distance on the time line included.
-/

namespace PollKeeper.Time

theorem Span.nanos_ofSeconds (n : Nat) : ((Span.ofSeconds n).nanos : Int) = n * 1000000000 :=
  Int.natCast_mul n 1000000000

namespace Instant

variable {s t : Instant} {d : Span} {n : Int}

/-- The instant is so many nanoseconds from the epoch, and not within a leap second. There is only one. -/
structure IsAt (t : Instant) (n : Int) : Prop where
  total : t.total = n
  nanos : t.nanos < 1000000000

theorem IsAt.eq (hs : s.IsAt n) (ht : t.IsAt n) : s = t := by
  have htotal := hs.total.trans ht.total.symm
  have hsnanos := hs.nanos
  have htnanos := ht.nanos
  obtain ⟨seconds, nanos, _, _, _⟩ := s
  obtain ⟨seconds', nanos', _, _, _⟩ := t
  simp only [Instant.total] at htotal hsnanos htnanos
  obtain rfl : seconds = seconds' := by omega
  obtain rfl : nanos = nanos' := by omega
  rfl

theorem isAt_of_ofTotal? (h : ofTotal? n = some t) : t.IsAt n := by
  simp only [ofTotal?] at h
  split at h
  · cases h
    constructor <;> simp only [total] <;> omega
  · cases h

theorem ofTotal?_eq_none (h : ofTotal? n = none) : n < earliest.total ∨ latest.total < n := by
  simp only [ofTotal?] at h
  split at h
  · cases h
  · next hrange =>
    simp only [total, earliest, latest, minSeconds, maxSeconds] at hrange ⊢
    omega

theorem earliest_total_le (t : Instant) : earliest.total ≤ t.total := by
  have hmin := t.min_le
  simp only [total, earliest]
  omega

private theorem IsAt.le_latest (h : t.IsAt n) : n ≤ latest.total := by
  have hmax := t.le_max
  have hnanos := h.nanos
  rw [← h.total]
  simp only [Instant.total, latest]
  omega

theorem IsAt.le {m : Int} (hs : s.IsAt n) (ht : t.IsAt m) (h : n ≤ m) : s ≤ t := by
  intro (hbefore : Before t s)
  have hstotal := hs.total
  have httotal := ht.total
  have hsnanos := hs.nanos
  have htnanos := ht.nanos
  simp only [Before] at hbefore
  simp only [Instant.total] at hstotal httotal
  omega

theorem isAt_latest : latest.IsAt latest.total := ⟨rfl, by decide⟩

theorem total_sub_lt_longest (t : Instant) :
    t.total - earliest.total < Span.longest.nanos ∧ latest.total - earliest.total < Span.longest.nanos := by
  have hmax := t.le_max
  have hnanos := t.nanos_lt
  simp only [total, earliest, latest, minSeconds, maxSeconds, Span.longest, Span.ofMillis] at *
  omega

theorem total_of_shift?_neg (hn : 0 ≤ n) (h : t.shift? (-n) = some s) : s.total = t.total - n := by
  have hnanos := t.nanos_lt
  simp only [shift?] at h
  split at h
  · split at h
    · cases h
      simp only [total]
      omega
    · omega
  · exact (isAt_of_ofTotal? h).total

private theorem shift?_neg_eq_none (hn : 0 ≤ n) (h : t.shift? (-n) = none) :
    t.total - n < earliest.total := by
  have hnanos := t.nanos_lt
  simp only [shift?] at h
  split at h
  · split at h
    · cases h
    · omega
  · have hmax := t.le_max
    have hout := ofTotal?_eq_none h
    simp only [total, latest] at hout ⊢
    omega

/-- A span earlier is exactly that much earlier, as long as there is so much time before the instant. -/
theorem total_minus (t : Instant) (d : Span) :
    (t.minus d).total = max (t.total - d.nanos) earliest.total := by
  rw [minus, Span.distance?]
  split
  · rw [Option.bind_some]
    cases hshift : t.shift? (-d.nanos) with
    | some s =>
      have htotal := total_of_shift?_neg (Int.natCast_nonneg _) hshift
      have hmin := s.earliest_total_le
      rw [Option.getD_some]
      omega
    | none =>
      have hout := shift?_neg_eq_none (Int.natCast_nonneg _) hshift
      rw [Option.getD_none]
      omega
  · have hlong := t.total_sub_lt_longest
    rw [Option.bind_none, Option.getD_none]
    omega

/-- A span that leads out of a leap second leads to a moment with a number of its own. -/
theorem minus_within (t : Instant) (d : Span) :
    (t.minus d).nanos < 1000000000 ∧ (t.nanos : Int) - d.nanos < 1000000000 ∨
      (t.minus d).seconds = t.seconds ∧ ((t.minus d).nanos : Int) = t.nanos - d.nanos := by
  have hnanos := t.nanos_lt
  have hfirst : earliest.nanos < 1000000000 := by decide
  rw [minus, Span.distance?]
  split
  · rw [Option.bind_some, shift?]
    split
    · split
      · refine .inr ⟨rfl, ?_⟩
        simp only [Option.getD_some]
        omega
      · omega
    · left
      refine ⟨?_, by omega⟩
      cases hshift : ofTotal? (t.total + -d.nanos) with
      | some s => exact (isAt_of_ofTotal? hshift).nanos
      | none => exact hfirst
  · next hlong =>
    simp only [Span.longest, Span.ofMillis] at hlong
    exact .inl ⟨hfirst, by omega⟩

theorem nanos_minus (h : t.nanos < 1000000000) : (t.minus d).nanos < 1000000000 := by
  rcases t.minus_within d with ⟨hnanos, -⟩ | ⟨-, hnanos⟩ <;> omega

/-- A longer span leads further back. -/
theorem minus_le_minus {d' : Span} (h : d.nanos ≤ d'.nanos) (t : Instant) : t.minus d' ≤ t.minus d := by
  intro (hbefore : Before (t.minus d) (t.minus d'))
  have hdone := t.total_minus d
  have hdone' := t.total_minus d'
  have hfirst := t.min_le
  have hwithin := t.minus_within d
  have hwithin' := t.minus_within d'
  simp only [Before] at hbefore
  simp only [total, earliest] at hdone hdone'
  omega

/-- The nanoseconds that count from the epoch to what comes after an instant. A leap second repeats the
second before it. -/
def reading (t : Instant) : Int := t.seconds * 1000000000 + (t.nanos % 1000000000 : Nat)

theorem reading_of_nanos_lt (h : t.nanos < 1000000000) : t.reading = t.total := by
  rw [reading, total, Nat.mod_eq_of_lt h]

private theorem shift?_eq_ofTotal? (hpast : t.nanos < 1000000000 ∨ 1000000000 ≤ n) :
    t.shift? n = ofTotal? (t.reading + n) := by
  have hnanos := t.nanos_lt
  rw [shift?]
  split
  · rw [dif_neg (by omega)]
    congr 1
    simp only [total, reading]
    omega
  · rw [reading_of_nanos_lt (by omega)]

/-- A span later is exactly that much later, as long as there is so much time after the instant. -/
theorem isAt_plus (hpast : t.nanos < 1000000000 ∨ 1000000000 ≤ d.nanos) :
    (t.plus d).IsAt (min (t.reading + d.nanos) latest.total) := by
  have hmin : earliest.total ≤ t.reading := by
    have hmin := t.min_le
    simp only [total, earliest, reading]
    omega
  rw [plus, Span.distance?]
  split
  · rw [Option.bind_some, shift?_eq_ofTotal? (by omega)]
    cases hshift : ofTotal? (t.reading + d.nanos) with
    | some s =>
      have hs := isAt_of_ofTotal? hshift
      rwa [Option.getD_some, Int.min_eq_left hs.le_latest]
    | none =>
      have hout := ofTotal?_eq_none hshift
      rw [Option.getD_none, Int.min_eq_right (by omega)]
      exact isAt_latest
  · have hlong := t.total_sub_lt_longest.2
    rw [Option.bind_none, Option.getD_none, Int.min_eq_right (by omega)]
    exact isAt_latest

end Instant

end PollKeeper.Time
