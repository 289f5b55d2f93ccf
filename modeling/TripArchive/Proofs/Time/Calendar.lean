import Mathlib.Tactic.IntervalCases
import TripArchive.Time.Relaxed

/-!
# Dates of days

Every day has a date that exists (`valid_ofDay`), and a day within the years of the calendar has a
date in one of these years.
-/

namespace TripArchive.Calendar

/-- A year that begins in March has a leap day exactly if the next one is a leap year. -/
theorem isLeap_succ_iff (year : Int) :
    isLeap (year + 1) = true ↔ daysBeforeYear (year + 1) = daysBeforeYear year + 366 := by
  simp only [isLeap, Bool.and_eq_true, Bool.or_eq_true, beq_iff_eq, bne_iff_ne]
  unfold daysBeforeYear
  omega

/-- A day of a year that begins in March is the date of a month. -/
theorem valid_ofYearDay {year : Int} {inYear : Nat}
    (h : daysBeforeYear year + inYear < daysBeforeYear (year + 1)) :
    (ofYearDay year inYear).Valid := by
  have hleap := isLeap_succ_iff year
  have hdays : inYear < 366 := by
    unfold daysBeforeYear at h
    omega
  have hlast : inYear = 365 → isLeap (year + 1) = true := by
    intro hinYear
    rw [hleap]
    unfold daysBeforeYear at h ⊢
    omega
  generalize hmonth : (5 * inYear + 2) / 153 = month
  have hlt : month < 12 := by omega
  unfold ofYearDay daysBeforeMonth
  rw [hmonth]
  dsimp only
  -- Only the last month of the year depends on the year.
  interval_cases month
  case «11» =>
    rw [if_neg (by decide)]
    have hmost : inYear - 337 + 1 ≤ daysInMonth (year + 1) 2 := by
      unfold daysInMonth
      rw [if_pos rfl]
      split
      · omega
      · next hnot =>
        have hshort : inYear ≠ 365 := fun hinYear => hnot (hlast hinYear)
        omega
    exact ⟨by simp, by simp, Nat.succ_pos _, hmost⟩
  all_goals
    simp only [Date.Valid, daysInMonth]
    simp
    omega

/-- Every day has a date that exists. -/
theorem valid_ofDay (day : Int) : (ofDay day).Valid := by
  obtain ⟨hle, hlt⟩ := yearOfDay_spec (day + epochDay)
  refine valid_ofYearDay ?_
  omega

/-- A day within the years of the calendar has a date in one of these years. -/
theorem year_ofDay_mem {day : Int} (h : Relaxed.inRange day = true) :
    Relaxed.yearRange.1 ≤ (ofDay day).year ∧ (ofDay day).year ≤ Relaxed.yearRange.2 := by
  have hfirst : toDay ⟨Relaxed.yearRange.1, 1, 1⟩ = -96465292 := by decide
  have hlast : toDay ⟨Relaxed.yearRange.2, 12, 31⟩ = 95026236 := by decide
  simp only [Relaxed.inRange, Bool.and_eq_true, decide_eq_true_eq, hfirst, hlast] at h
  obtain ⟨hle, hlt⟩ := yearOfDay_spec (day + epochDay)
  unfold ofDay ofYearDay Relaxed.yearRange
  dsimp only
  generalize yearOfDay (day + epochDay) = year at hle hlt ⊢
  have hyears : -262144 ≤ year ∧ year ≤ 262142 := by
    unfold daysBeforeYear epochDay at hle hlt
    omega
  -- The first of these years has January and February only, and the last one lacks them.
  have hbegins : year = -262144 → 306 ≤ (day + epochDay - daysBeforeYear year).toNat := by
    rintro rfl
    unfold daysBeforeYear epochDay
    omega
  have hends : year = 262142 → (day + epochDay - daysBeforeYear year).toNat < 306 := by
    rintro rfl
    unfold daysBeforeYear epochDay
    omega
  generalize (day + epochDay - daysBeforeYear year).toNat = inYear at hbegins hends ⊢
  split <;> dsimp only <;> omega

end TripArchive.Calendar
