import PollKeeper.Proofs.Text.Numerals
import PollKeeper.Proofs.Time.Calendar
import PollKeeper.Time.Rfc3339

/-!
# Instants are read back

Each part of what `Rfc3339.write` makes of an instant is read as what it stands for, up to the part that
follows, and the parts together name the instant.
-/

namespace PollKeeper.Time.Rfc3339

open PollKeeper.Text

variable {n : Nat} {c : Char} {cs rest : List Char}

theorem isBlankChar_of_isDigit (h : isDigit c = true) : isBlankChar c = false := by
  simp only [isDigit, digitValue?] at h
  split at h
  · next hc =>
    have hlow : 48 ≤ c.toNat := hc.1
    have hhigh : c.toNat ≤ 57 := hc.2
    simp only [isBlankChar, blankRanges, List.any_cons, List.any_nil, Bool.or_false, Bool.or_eq_false_iff,
      Bool.and_eq_false_iff, decide_eq_false_iff_not]
    omega
  · cases h

theorem skipBlank_cons (h : isBlankChar c = false) : skipBlank (c :: cs) = c :: cs :=
  List.dropWhile_cons_of_neg (by simp [h])

theorem padLeft_eq_cons (width n : Nat) :
    ∃ c cs, padLeft width '0' (digits n) = c :: cs ∧ isDigit c = true := by
  cases hpad : padLeft width '0' (digits n) with
  | nil => exact absurd hpad (padLeft_ne_nil width n)
  | cons c cs => exact ⟨c, cs, rfl, isDigit_of_mem_padLeft (hpad ▸ List.mem_cons_self)⟩

private theorem skipBlank_padLeft (width n : Nat) (rest : List Char) :
    skipBlank (padLeft width '0' (digits n) ++ rest) = padLeft width '0' (digits n) ++ rest := by
  obtain ⟨c, cs, heq, hc⟩ := padLeft_eq_cons width n
  rw [heq, List.cons_append]
  exact skipBlank_cons (isBlankChar_of_isDigit hc)

theorem number?_padLeft (width : Nat) (hwidth : 0 < width) (h : n < 10 ^ width) (rest : List Char) :
    number? width (padLeft width '0' (digits n) ++ rest) = some (n, rest) := by
  have hrun : takeDigits width (padLeft width '0' (digits n) ++ rest) =
      (padLeft width '0' (digits n), rest) :=
    takeDigits_of_length (fun _ hc => isDigit_of_mem_padLeft hc) (length_padLeft hwidth h)
  have hne : (padLeft width '0' (digits n)).isEmpty = false :=
    List.isEmpty_eq_false_iff.mpr (padLeft_ne_nil width n)
  simp [number?, skipBlank_padLeft, hrun, hne, numberOf_padLeft]

theorem number?_twoDigits (h : n < 100) (rest : List Char) :
    number? 2 (Date.twoDigits n ++ rest) = some (n, rest) :=
  number?_padLeft 2 (by decide) h rest

private theorem longNumber?_padLeft (width n : Nat) (h : EndsRun rest) :
    longNumber? (padLeft width '0' (digits n) ++ rest) = some (n, rest) := by
  have hrun : (padLeft width '0' (digits n) ++ rest).span isDigit =
      (padLeft width '0' (digits n), rest) :=
    span_isDigit (fun _ hc => isDigit_of_mem_padLeft hc) h
  have hne : (padLeft width '0' (digits n)).isEmpty = false :=
    List.isEmpty_eq_false_iff.mpr (padLeft_ne_nil width n)
  rw [longNumber?, hrun]
  simp [hne, numberOf_padLeft]

theorem separator?_cons (mark : Char) (h : isBlankChar mark = false) :
    separator? mark (mark :: cs) = some cs := by
  rw [separator?, skipBlank_cons h]
  exact if_pos rfl

private theorem year?_digit (hc : isDigit c = true) :
    year? (c :: cs) = (number? 4 (c :: cs)).map fun (n, rest) => ((n : Int), rest) := by
  rw [year?, skipBlank_cons (isBlankChar_of_isDigit hc)]
  split
  · next heq =>
    rw [(List.cons.inj heq).1] at hc
    exact absurd hc (by decide)
  · next heq =>
    rw [(List.cons.inj heq).1] at hc
    exact absurd hc (by decide)
  · rfl

private theorem year?_yearText (year : Int) (h : EndsRun rest) :
    year? (Date.yearText year ++ rest) = some (year, rest) := by
  rw [Date.yearText]
  split
  · have hvalue : -(year.natAbs : Int) = year := by omega
    rw [List.cons_append, year?, skipBlank_cons (by decide)]
    simp only [longNumber?_padLeft _ _ h, Option.map_some, hvalue]
  · have hvalue : (year.natAbs : Int) = year := by omega
    split
    · rw [List.cons_append, year?, skipBlank_cons (by decide)]
      simp only [longNumber?_padLeft _ _ h, Option.map_some, hvalue]
    · have hnumber : number? 4 (padLeft 4 '0' (digits year.natAbs) ++ rest) = some (year.natAbs, rest) :=
        number?_padLeft 4 (by decide) (by omega) rest
      obtain ⟨c, cs, heq, hc⟩ := padLeft_eq_cons 4 year.natAbs
      rw [heq, List.cons_append] at hnumber ⊢
      simp only [year?_digit hc, hnumber, Option.map_some, hvalue]

private theorem date?_text (d : Date) (hmonth : d.month < 100) (hday : d.day < 100) (rest : List Char) :
    date? (Date.yearText d.year ++ '-' :: (Date.twoDigits d.month ++
        '-' :: (Date.twoDigits d.day ++ rest))) =
      some (d, rest) := by
  have hends : ∀ cs, EndsRun ('-' :: cs) := fun cs c hc => by cases hc; decide
  simp only [date?, year?_yearText d.year (hends _), separator?_cons '-' (by decide),
    number?_twoDigits hmonth, number?_twoDigits hday, Option.bind_eq_bind, Option.bind_some]

private theorem nanos?_padLeft (width : Nat) (hwidth : 0 < width) (hle : width ≤ 9) (h : n < 10 ^ width)
    (rest : List Char) :
    nanos? ('.' :: padLeft width '0' (digits n) ++ 'Z' :: rest) =
      some (n * 10 ^ (9 - width), 'Z' :: rest) := by
  have hlength := length_padLeft hwidth h
  have hends : EndsRun ('Z' :: rest) := fun _ hc => by cases hc; decide
  have hrun : takeDigits 9 (padLeft width '0' (digits n) ++ 'Z' :: rest) =
      (padLeft width '0' (digits n), 'Z' :: rest) :=
    takeDigits_of_endsRun (fun _ hc => isDigit_of_mem_padLeft hc) (by omega) hends
  have hne : (padLeft width '0' (digits n)).isEmpty = false :=
    List.isEmpty_eq_false_iff.mpr (padLeft_ne_nil width n)
  rw [List.cons_append, nanos?, hrun]
  simp [hne, numberOf_padLeft, hlength, hends.dropWhile]

/-- The digits of a fraction are as many as it needs, and it is read as what it was. -/
theorem nanos?_fraction (h : n < 1000000000) (rest : List Char) :
    nanos? (fraction n ++ 'Z' :: rest) = some (n, 'Z' :: rest) := by
  rw [fraction]
  split
  · next hzero =>
    subst hzero
    rfl
  split
  · next hmillis =>
    have hvalue : n / 1000000 * 10 ^ (9 - 3) = n := by omega
    rw [nanos?_padLeft 3 (by decide) (by decide) (by omega), hvalue]
  split
  · next hmicros =>
    have hvalue : n / 1000 * 10 ^ (9 - 6) = n := by omega
    rw [nanos?_padLeft 6 (by decide) (by decide) (by omega), hvalue]
  · rw [nanos?_padLeft 9 (by decide) (by decide) h]
    simp

private theorem clock?_text (clock : Clock) (hhour : clock.hour ≤ 23) (hminute : clock.minute ≤ 59)
    (hsecond : clock.second ≤ 60) (hnanos : clock.nanos < 1000000000) (rest : List Char) :
    clock? (Date.twoDigits clock.hour ++ ':' :: (Date.twoDigits clock.minute ++
        ':' :: (Date.twoDigits clock.second ++ (fraction clock.nanos ++ 'Z' :: rest)))) =
      some (clock, 'Z' :: rest) := by
  have hhour' : clock.hour < 100 := by omega
  have hminute' : clock.minute < 100 := by omega
  have hsecond' : clock.second < 100 := by omega
  simp only [clock?, number?_twoDigits hhour', number?_twoDigits hminute', number?_twoDigits hsecond',
    separator?_cons ':' (by decide), nanos?_fraction hnanos, Option.bind_eq_bind,
    Option.bind_some]
  exact if_pos ⟨hhour, hminute, hsecond⟩

def Clock.ofInstant (t : Instant) : Clock :=
  let c := CivilTime.ofSeconds t.seconds
  ⟨c.hour, c.minute, c.second + t.nanos / 1000000000, t.nanos % 1000000000⟩

/-- Date and time of day of an instant lead back to it, in a leap second too. -/
theorem assemble?_ofInstant (t : Instant) :
    assemble? (CivilTime.ofSeconds t.seconds).date (Clock.ofInstant t) 0 = some t := by
  have hsecond := CivilTime.second_ofSeconds t.seconds
  have hshown : (Clock.ofInstant t).second =
      (CivilTime.ofSeconds t.seconds).second + t.nanos / 1000000000 := rfl
  have hfraction : (Clock.ofInstant t).nanos = t.nanos % 1000000000 := rfl
  have hnanos := t.nanos_lt
  -- A leap second shows as second 60 of its minute and is counted as second 59 of it.
  have hcount : (if (Clock.ofInstant t).second = 60 then 59 else (Clock.ofInstant t).second) =
      (CivilTime.ofSeconds t.seconds).second := by
    split <;> omega
  have hrest : (if (Clock.ofInstant t).second = 60 then (Clock.ofInstant t).nanos + 1000000000
      else (Clock.ofInstant t).nanos) = t.nanos := by
    split <;> omega
  have hseconds : (⟨(CivilTime.ofSeconds t.seconds).date, (Clock.ofInstant t).hour,
      (Clock.ofInstant t).minute, (CivilTime.ofSeconds t.seconds).second⟩ : CivilTime).seconds =
      t.seconds :=
    CivilTime.seconds_ofSeconds t.seconds
  simp only [assemble?, hcount, hrest, hseconds, Int.sub_zero]
  exact dif_pos ⟨hnanos, t.min_le, t.le_max⟩

private theorem write_eq (t : Instant) :
    write t = Date.yearText (CivilTime.ofSeconds t.seconds).date.year ++
      '-' :: (Date.twoDigits (CivilTime.ofSeconds t.seconds).date.month ++
      '-' :: (Date.twoDigits (CivilTime.ofSeconds t.seconds).date.day ++
      'T' :: (Date.twoDigits (Clock.ofInstant t).hour ++
      ':' :: (Date.twoDigits (Clock.ofInstant t).minute ++
      ':' :: (Date.twoDigits (Clock.ofInstant t).second ++
        (fraction (Clock.ofInstant t).nanos ++ 'Z' :: [])))))) := by
  simp only [write, Clock.ofInstant, List.append_assoc, List.cons_append]

/-- Every instant is read back from its text. -/
theorem read?_write (t : Instant) : read? (write t) = some t := by
  have hmonth := (Date.month_ofDayNumber (t.seconds / 86400)).2
  have hday := (Date.day_ofDayNumber (t.seconds / 86400)).2
  have hyear := Date.year_ofDayNumber (Int.ediv_le_ediv (by decide) t.min_le)
    (Int.ediv_le_ediv (by decide) t.le_max)
  have hreal := Date.isReal_ofDayNumber (t.seconds / 86400)
  have hsecond := CivilTime.second_ofSeconds t.seconds
  have hnanos := t.nanos_lt
  have hdate := date?_text (CivilTime.ofSeconds t.seconds).date (by simp only [CivilTime.ofSeconds]; omega)
    (by simp only [CivilTime.ofSeconds]; omega)
  have hclock := clock?_text (Clock.ofInstant t) (CivilTime.hour_ofSeconds _)
    (CivilTime.minute_ofSeconds _) (by simp only [Clock.ofInstant]; omega)
    (by simp only [Clock.ofInstant]; omega) []
  have hoffset : offset? (skipBlank ['Z']) = some (0, []) := rfl
  rw [write_eq, read?, hdate]
  simp only [Option.bind_eq_bind, Option.bind_some, hclock, hoffset, assemble?_ofInstant]
  exact if_pos ⟨hreal, hyear.1, hyear.2, by decide, rfl⟩

example : write ⟨-62167219201, 1000000010, by decide, by decide, by decide⟩ =
    "-0001-12-31T23:59:60.000000010Z".toList := by decide +kernel

end PollKeeper.Time.Rfc3339
