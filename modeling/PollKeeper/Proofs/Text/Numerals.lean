import Mathlib.Algebra.Group.Nat.Defs
import Mathlib.Data.List.Basic
import Mathlib.Data.List.TakeDrop
import Mathlib.Data.List.TakeWhile
import PollKeeper.Text.Decimal

/-!
# Numerals are read back

The digits of a number denote it, with or without zeros in front, and a run of digits is split off from
what follows it.
-/

namespace PollKeeper.Text

variable {n limit : Nat} {c : Char} {run rest : List Char}

theorem isDigit_eq (c : Char) : isDigit c = c.isDigit := by
  have hbounds : ('0' ≤ c ∧ c ≤ '9') ↔ c.isDigit = true := by
    simp [Char.isDigit, Char.le_def]
  simp only [isDigit, digitValue?]
  split
  · next h => rw [hbounds.mp h]; rfl
  · next h =>
    rw [hbounds, Bool.not_eq_true] at h
    rw [h]
    rfl

theorem digitValue?_of_isDigit (h : isDigit c = true) : digitValue? c = some (c.toNat - '0'.toNat) := by
  simp only [isDigit, digitValue?] at h ⊢
  split
  · rfl
  · next hout => simp [hout] at h

theorem numberOf_eq_ofDigitChars (h : ∀ c ∈ run, isDigit c = true) :
    numberOf run = Nat.ofDigitChars 10 run 0 := by
  rw [numberOf, Nat.ofDigitChars_eq_foldl]
  refine List.foldl_ext _ _ _ fun n c hc => ?_
  rw [digitValue?_of_isDigit (h c hc)]
  rfl

theorem isDigit_of_mem_digits (h : c ∈ digits n) : isDigit c = true := by
  rw [isDigit_eq]
  exact Nat.isDigit_of_mem_toDigits (by decide) (by decide) h

theorem numberOf_digits (n : Nat) : numberOf (digits n) = n := by
  rw [numberOf_eq_ofDigitChars fun c hc => isDigit_of_mem_digits hc]
  exact Nat.ofDigitChars_ten_toDigits

theorem digits_ne_nil (n : Nat) : digits n ≠ [] := Nat.toDigits_ne_nil

theorem length_digits_le {k : Nat} (hk : 0 < k) (h : n < 10 ^ k) : (digits n).length ≤ k :=
  (Nat.length_toDigits_le_iff (by decide) hk).mpr h

theorem head?_digits (h : 0 < n) : (digits n).head? ≠ some '0' := by
  induction n using Nat.strongRecOn with
  | ind n ih =>
    by_cases hn : n < 10
    · rw [digits, Nat.toDigits_of_lt_base hn, List.head?_cons, ne_eq, Option.some.injEq,
        Nat.digitChar_eq_zero]
      omega
    · rw [digits, Nat.toDigits_of_base_le (by decide) (by omega),
        List.head?_append_of_ne_nil _ Nat.toDigits_ne_nil]
      exact ih (n / 10) (by omega) (by omega)

theorem isDigit_of_mem_padLeft {width : Nat} (h : c ∈ padLeft width '0' (digits n)) :
    isDigit c = true := by
  rcases List.mem_append.mp h with hzero | hdigit
  · rw [(List.mem_replicate.mp hzero).2]
    decide
  · exact isDigit_of_mem_digits hdigit

theorem numberOf_padLeft (width n : Nat) : numberOf (padLeft width '0' (digits n)) = n := by
  rw [numberOf_eq_ofDigitChars fun c hc => isDigit_of_mem_padLeft hc, padLeft, Nat.ofDigitChars_append,
    Nat.ofDigitChars_replicate_zero, Nat.mul_zero]
  exact Nat.ofDigitChars_ten_toDigits

theorem length_padLeft {width : Nat} (hwidth : 0 < width) (h : n < 10 ^ width) :
    (padLeft width '0' (digits n)).length = width := by
  have hle := length_digits_le hwidth h
  rw [padLeft, List.length_append, List.length_replicate]
  omega

theorem padLeft_ne_nil (width n : Nat) : padLeft width '0' (digits n) ≠ [] :=
  List.append_ne_nil_of_right_ne_nil _ (digits_ne_nil n)

/-- What does not go on with a digit. -/
def EndsRun (rest : List Char) : Prop := ∀ c ∈ rest.head?, isDigit c = false

theorem EndsRun.takeWhile (h : EndsRun rest) : rest.takeWhile isDigit = [] := by
  cases rest with
  | nil => rfl
  | cons c rest => exact List.takeWhile_cons_of_neg (by simp [h c rfl])

theorem EndsRun.dropWhile (h : EndsRun rest) : rest.dropWhile isDigit = rest := by
  cases rest with
  | nil => rfl
  | cons c rest => exact List.dropWhile_cons_of_neg (by simp [h c rfl])

theorem span_isDigit (hrun : ∀ c ∈ run, isDigit c = true) (hrest : EndsRun rest) :
    (run ++ rest).span isDigit = (run, rest) := by
  rw [List.span_eq_takeWhile_dropWhile, List.takeWhile_append_of_pos hrun,
    List.dropWhile_append_of_pos hrun, hrest.takeWhile, hrest.dropWhile, List.append_nil]

/-- As many digits as may be read are read. -/
theorem takeDigits_of_length (hrun : ∀ c ∈ run, isDigit c = true) (hlength : run.length = limit) :
    takeDigits limit (run ++ rest) = (run, rest) := by
  have htake : (run ++ rest).take limit = run := by rw [← hlength, List.take_left']; rfl
  have hall : run.takeWhile isDigit = run := List.takeWhile_eq_self_iff.mpr hrun
  simp only [takeDigits, htake, hall, List.drop_left]

theorem takeDigits_of_endsRun (hrun : ∀ c ∈ run, isDigit c = true) (hlength : run.length ≤ limit)
    (hrest : EndsRun rest) : takeDigits limit (run ++ rest) = (run, rest) := by
  have htake : ((run ++ rest).take limit).takeWhile isDigit = run := by
    rw [List.take_append, List.take_of_length_le hlength, List.takeWhile_append_of_pos hrun]
    have hends : EndsRun (rest.take (limit - run.length)) := by
      intro c hc
      refine hrest c ?_
      rw [List.head?_take] at hc
      split at hc
      · cases hc
      · exact hc
    rw [hends.takeWhile, List.append_nil]
  simp only [takeDigits, htake, List.drop_left]

end PollKeeper.Text
