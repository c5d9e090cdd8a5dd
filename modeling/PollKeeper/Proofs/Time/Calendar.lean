import PollKeeper.Time.Calendar
import PollKeeper.Time.Instant

/-!
# Dates and day numbers

Every day number has a date, and the date leads back to it; so do the seconds and the wall clock. The
400 years that a date lies in are counted by days: all their centuries but the last have a day less than
25 times four years, and the last day of all belongs to the last year.
-/

namespace PollKeeper.Time

namespace Date

section Era

variable {dayOfEra yearOfEra : Int} (hlow : 0 ≤ dayOfEra) (hhigh : dayOfEra < 146097)
  (hyear : yearOfEra = (dayOfEra - dayOfEra / 1460 + dayOfEra / 36524 - dayOfEra / 146096) / 365)

include hlow hhigh hyear

private theorem yearOfEra_bounds : 0 ≤ yearOfEra ∧ yearOfEra ≤ 399 := by omega

/-- The century is that of the day, the last day apart. -/
theorem century_eq : yearOfEra / 100 = dayOfEra / 36524 - dayOfEra / 146096 := by
  have hcentury : dayOfEra / 36524 = 0 ∨ dayOfEra / 36524 = 1 ∨ dayOfEra / 36524 = 2 ∨
      dayOfEra / 36524 = 3 ∨ dayOfEra / 36524 = 4 := by omega
  rcases hcentury with h | h | h | h | h <;> omega

/-- The year does not begin after the day and does not end before it. -/
theorem dayOfYear_bounds :
    0 ≤ dayOfEra - (365 * yearOfEra + yearOfEra / 4 - yearOfEra / 100) ∧
      dayOfEra - (365 * yearOfEra + yearOfEra / 4 - yearOfEra / 100) ≤ 365 := by
  have hcentury := century_eq hlow hhigh hyear
  -- Leap days are counted by spans of 1460 days, which end up to one leap year too early.
  have hleap : yearOfEra / 4 ≤ dayOfEra / 1460 := by omega
  have hearly : dayOfEra / 1460 ≤ yearOfEra / 4 + 1 := by omega
  omega

end Era

/-- A day number as its 400 years, the year in them, the months since March and the day of the month. -/
structure Splits (n era yearOfEra m day : Int) : Prop where
  year_nonneg : 0 ≤ yearOfEra
  year_le : yearOfEra ≤ 399
  month_nonneg : 0 ≤ m
  month_le : m ≤ 11
  day_pos : 1 ≤ day
  day_le : day ≤ 31
  eq : n + epochDay = 146097 * era + (365 * yearOfEra + yearOfEra / 4 - yearOfEra / 100) +
    (monthStart m + day - 1)

def ofParts (era yearOfEra m day : Int) : Date :=
  let month := if m < 10 then m + 3 else m - 9
  ⟨400 * era + yearOfEra + (if month ≤ 2 then 1 else 0), month.toNat, day.toNat⟩

theorem exists_splits (n : Int) :
    ∃ era yearOfEra m day, Splits n era yearOfEra m day ∧
      ofDayNumber n = ofParts era yearOfEra m day := by
  obtain ⟨dayOfEra, hday⟩ : ∃ d, d = (n + epochDay) % 146097 := ⟨_, rfl⟩
  obtain ⟨yearOfEra, hyear⟩ :
    ∃ y, y = (dayOfEra - dayOfEra / 1460 + dayOfEra / 36524 - dayOfEra / 146096) / 365 := ⟨_, rfl⟩
  obtain ⟨dayOfYear, hrest⟩ :
    ∃ d, d = dayOfEra - (365 * yearOfEra + yearOfEra / 4 - yearOfEra / 100) := ⟨_, rfl⟩
  have hera := yearOfEra_bounds (by omega) (by omega) hyear
  have hbounds := dayOfYear_bounds (by omega) (by omega) hyear
  rw [← hrest] at hbounds
  refine ⟨(n + epochDay) / 146097, yearOfEra, (5 * dayOfYear + 2) / 153,
    dayOfYear - monthStart ((5 * dayOfYear + 2) / 153) + 1, ?_, ?_⟩
  · exact
      { year_nonneg := hera.1
        year_le := hera.2
        month_nonneg := by omega
        month_le := by omega
        day_pos := by simp only [monthStart]; omega
        day_le := by simp only [monthStart]; omega
        eq := by omega }
  · subst hrest hyear hday
    rfl

section OfDayNumber

variable (n : Int)

theorem month_ofDayNumber : 1 ≤ (ofDayNumber n).month ∧ (ofDayNumber n).month ≤ 12 := by
  obtain ⟨era, yearOfEra, m, day, h, heq⟩ := exists_splits n
  have hlow := h.month_nonneg
  have hhigh := h.month_le
  simp only [heq, ofParts]
  omega

theorem day_ofDayNumber : 1 ≤ (ofDayNumber n).day ∧ (ofDayNumber n).day ≤ 31 := by
  obtain ⟨era, yearOfEra, m, day, h, heq⟩ := exists_splits n
  have hlow := h.day_pos
  have hhigh := h.day_le
  simp only [heq, ofParts]
  omega

/-- The date of a day number has that day number. -/
theorem dayNumber_ofDayNumber : (ofDayNumber n).dayNumber = n := by
  obtain ⟨era, yearOfEra, m, day, h, heq⟩ := exists_splits n
  obtain ⟨hyear, hyear', hm, hm', hday, hday', hsum⟩ := h
  have hmonth : (((if m < 10 then m + 3 else m - 9).toNat : Int) + 9) % 12 = m := by omega
  rw [heq]
  simp only [ofParts, dayNumber, hmonth]
  omega

theorem isReal_ofDayNumber : (ofDayNumber n).isReal = true := by
  simp [isReal, dayNumber_ofDayNumber]

/-- The days that instants can have lie in the years that may be written. -/
theorem year_ofDayNumber {n : Int} (hlow : minSeconds / 86400 ≤ n) (hhigh : n ≤ maxSeconds / 86400) :
    -262143 ≤ (ofDayNumber n).year ∧ (ofDayNumber n).year ≤ 262142 := by
  obtain ⟨era, yearOfEra, m, day, h, heq⟩ := exists_splits n
  obtain ⟨hyear, hyear', hm, hm', hday, hday', hsum⟩ := h
  simp only [heq, ofParts]
  simp only [minSeconds, maxSeconds, epochDay, monthStart] at hlow hhigh hsum
  -- The last of these days is in the year 142 of its 400 years.
  have hera : era ≤ 655 := by omega
  have hyear : era = 655 → yearOfEra ≤ 142 := by omega
  constructor <;> omega

end OfDayNumber

end Date

namespace CivilTime

variable (s : Int)

theorem hour_ofSeconds : (ofSeconds s).hour ≤ 23 := by
  simp only [ofSeconds]
  omega

theorem minute_ofSeconds : (ofSeconds s).minute ≤ 59 := by
  simp only [ofSeconds]
  omega

theorem second_ofSeconds : ((ofSeconds s).second : Int) = s % 60 := by
  simp only [ofSeconds]
  omega

theorem seconds_ofSeconds : (ofSeconds s).seconds = s := by
  simp only [ofSeconds, seconds, Date.dayNumber_ofDayNumber]
  omega

end CivilTime

end PollKeeper.Time
