import Mathlib.Algebra.Group.Nat.Defs
import TripArchive.Proofs.Text.Utf8
import TripArchive.Time.Relaxed

/-!
# The magnitude of a written time

The year stands in front of a written time with all its digits. So a text of a given length bounds
the year, the year bounds the day, and the day bounds the seconds. The other way round a moment
that can be held has a short text.
-/

namespace TripArchive

namespace Calendar

/-- A year of a date bounds its day: no year has more than 366 days. -/
theorem natAbs_day_le (day : Int) : day.natAbs ≤ 366 * (ofDay day).year.natAbs + 720200 := by
  obtain ⟨hle, hlt⟩ := yearOfDay_spec (day + epochDay)
  have hyear : (ofDay day).year = yearOfDay (day + epochDay) ∨
      (ofDay day).year = yearOfDay (day + epochDay) + 1 := by
    unfold ofDay ofYearDay
    dsimp only
    split
    · exact Or.inl rfl
    · exact Or.inr rfl
  generalize yearOfDay (day + epochDay) = year at *
  have hleaps (n : Int) : (daysBeforeYear n - 365 * n).natAbs ≤ n.natAbs + 2 := by
    unfold daysBeforeYear
    omega
  have hbefore := hleaps year
  have hafter := hleaps (year + 1)
  unfold epochDay at *
  omega

/-- The year of a day is not larger than the day by more than those before 1970. -/
theorem natAbs_year_le (day : Int) : (ofDay day).year.natAbs ≤ day.natAbs + 720000 := by
  have hyear : (yearOfDay (day + epochDay)).natAbs ≤ day.natAbs + 719999 := by
    unfold yearOfDay daysBeforeYear epochDay
    dsimp only
    split
    · omega
    · split <;> omega
  unfold ofDay ofYearDay
  dsimp only
  split <;> dsimp only <;> omega

/-- The months and days of a date are counted from one and do not go far. -/
theorem monthDay_lt (day : Int) : (ofDay day).month < 100 ∧ (ofDay day).day < 1000 := by
  obtain ⟨hle, hlt⟩ := yearOfDay_spec (day + epochDay)
  have hinYear : (day + epochDay - daysBeforeYear (yearOfDay (day + epochDay))).toNat < 367 := by
    generalize yearOfDay (day + epochDay) = year at hle hlt
    unfold daysBeforeYear at hle hlt ⊢
    omega
  unfold ofDay ofYearDay
  dsimp only
  generalize (day + epochDay - daysBeforeYear (yearOfDay (day + epochDay))).toNat = inYear
    at hinYear
  split <;> dsimp only <;> omega

end Calendar

/-- Whether a moment can be held: its day lies in the years of the calendar, and its fraction ends
with the leap second. -/
def Instant.InCalendar (t : Instant) : Prop :=
  Relaxed.inRange t.day = true ∧ t.nanos < 2000000000

instance (t : Instant) : Decidable t.InCalendar := inferInstanceAs (Decidable (_ ∧ _))

namespace Rfc3339

/-- A number of at most `count` digits is below the power of ten. -/
theorem lt_pow_of_length_padded_le {width n count : Nat} (hcount : 0 < count)
    (h : (padded width n).length ≤ count) : n < 10 ^ count := by
  refine (Nat.length_toDigits_le_iff (by decide) hcount).mp ?_
  unfold padded at h
  simp only [List.length_append] at h
  omega

/-- The year is written with all its digits. -/
theorem natAbs_lt_of_length_writeYear_le {year : Int} {count : Nat} (hcount : 0 < count)
    (h : (writeYear year).length ≤ count) : year.natAbs < 10 ^ count := by
  unfold writeYear at h
  split at h
  · have hyear := lt_pow_of_length_padded_le hcount h
    omega
  · split at h
    · have hyear := lt_pow_of_length_padded_le hcount (Nat.le_of_succ_le h)
      omega
    · have hyear := lt_pow_of_length_padded_le hcount (Nat.le_of_succ_le h)
      omega

/-- A time whose text has at most `count` bytes has at most eleven digits more in its seconds. -/
theorem natAbs_seconds_lt {precision : Precision} {t : Instant} {count : Nat} (hcount : 0 < count)
    (h : (write precision t).utf8ByteSize ≤ count) : t.seconds.natAbs < 10 ^ (count + 11) := by
  have hlength : (writeYear (Calendar.ofDay t.day).year).length ≤ count := by
    have hchars := Utf8.length_toList_le (write precision t)
    rw [Utf8.length_encode] at hchars
    simp only [write, String.toList_ofList, List.length_append, List.length_cons, writeDate]
      at hchars h
    omega
  have hyear := natAbs_lt_of_length_writeYear_le hcount hlength
  have hday := Calendar.natAbs_day_le t.day
  have hseconds : t.seconds.natAbs ≤ 86400 * t.day.natAbs + 86400 := by
    unfold Instant.day
    omega
  have hone : 0 < 10 ^ count := Nat.pow_pos (by decide)
  rw [Nat.pow_add]
  generalize 10 ^ count = most at *
  omega

/-- A number below a power of ten is padded to its digits at most. -/
theorem length_padded_le {width n count : Nat} (hcount : 0 < count) (hwidth : width ≤ count)
    (h : n < 10 ^ count) : (padded width n).length ≤ count := by
  have hdigits := (Nat.length_toDigits_le_iff (by decide) hcount).mpr h
  unfold padded
  simp only [List.length_append, List.length_replicate]
  omega

/-- The day of a moment that can be held has at most eight digits. -/
theorem natAbs_day_lt_of_inCalendar {t : Instant} (h : t.InCalendar) :
    t.day.natAbs < 100000000 := by
  have hfirst : -100000000 < Calendar.toDay ⟨Relaxed.yearRange.1, 1, 1⟩ := by decide
  have hlast : Calendar.toDay ⟨Relaxed.yearRange.2, 12, 31⟩ < 100000000 := by decide
  have hrange := h.1
  simp only [Relaxed.inRange, Bool.and_eq_true, decide_eq_true_eq] at hrange
  omega

/-- The text of a moment that can be held is short, but not empty. -/
theorem length_write_millis_le {t : Instant} (h : t.InCalendar) :
    0 < (write .millis t).toList.length ∧ (write .millis t).toList.length ≤ 40 := by
  have hday := natAbs_day_lt_of_inCalendar h
  have hnanos := h.2
  have hyear := Calendar.natAbs_year_le t.day
  obtain ⟨hmonth, hdayOfMonth⟩ := Calendar.monthDay_lt t.day
  have hyearText : (writeYear (Calendar.ofDay t.day).year).length ≤ 10 := by
    generalize (Calendar.ofDay t.day).year = year at hyear
    unfold writeYear
    split
    · exact Nat.le_succ_of_le (length_padded_le (by decide) (by decide) (by omega))
    · split
      · exact Nat.succ_le_succ (length_padded_le (by decide) (by decide) (by omega))
      · exact Nat.succ_le_succ (length_padded_le (by decide) (by decide) (by omega))
  have hmonthText : (padded 2 (Calendar.ofDay t.day).month).length ≤ 2 :=
    length_padded_le (by decide) (by decide) hmonth
  have hdayText : (padded 2 (Calendar.ofDay t.day).day).length ≤ 3 :=
    length_padded_le (by decide) (by decide) hdayOfMonth
  have hsecond : t.secondOfDay < 86400 := by
    unfold Instant.secondOfDay
    omega
  have hhourText : (padded 2 (t.secondOfDay / 3600)).length ≤ 2 :=
    length_padded_le (by decide) (by decide) (by omega)
  have hminuteText : (padded 2 (t.secondOfDay / 60 % 60)).length ≤ 2 :=
    length_padded_le (by decide) (by decide) (by omega)
  have hsecondText : (padded 2 (t.secondOfDay % 60 + t.nanos / 1000000000)).length ≤ 2 :=
    length_padded_le (by decide) (by decide) (by omega)
  have hmillisText : (padded 3 (t.nanos % 1000000000 / 1000000)).length ≤ 3 :=
    length_padded_le (by decide) (by decide) (by omega)
  simp only [write, String.toList_ofList, writeDate, writeTime, writeFraction, List.length_append,
    List.length_cons, List.length_nil]
  omega

end Rfc3339

end TripArchive
