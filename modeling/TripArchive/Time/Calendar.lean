/-!
# The calendar

Days of the proleptic Gregorian calendar as numbers, counted from 1970-01-01. Years are counted
from March inside this module, so that the leap day is the last day of a year.
-/

namespace TripArchive.Calendar

/-- A date; `month` counts from one and `day` from one. -/
structure Date where
  year : Int
  month : Nat
  day : Nat
  deriving DecidableEq, Repr

/-- The number of days before a year that begins in March, from 0000-03-01 on. -/
def daysBeforeYear (year : Int) : Int := 365 * year + year / 4 - year / 100 + year / 400

/-- The year, beginning in March, that holds a day counted from 0000-03-01. -/
def yearOfDay (n : Int) : Int :=
  let guess := n * 400 / 146097
  if daysBeforeYear (guess + 1) ≤ n then guess + 1
  else if daysBeforeYear guess ≤ n then guess
  else guess - 1

/-- The number of days before a month of a year that begins in March. -/
def daysBeforeMonth (month : Nat) : Nat := (153 * month + 2) / 5

/-- The days from 0000-03-01 to 1970-01-01. -/
def epochDay : Int := 719468

/-- The date of a day of a year that begins in March, counted from zero. -/
def ofYearDay (year : Int) (inYear : Nat) : Date :=
  let month := (5 * inYear + 2) / 153
  let inMonth := inYear - daysBeforeMonth month
  if month < 10 then ⟨year, month + 3, inMonth + 1⟩ else ⟨year + 1, month - 9, inMonth + 1⟩

/-- The date of a day counted from 1970-01-01. -/
def ofDay (day : Int) : Date :=
  let n := day + epochDay
  ofYearDay (yearOfDay n) (n - daysBeforeYear (yearOfDay n)).toNat

/-- The day of a date, counted from 1970-01-01. -/
def toDay (date : Date) : Int :=
  let (year, month) :=
    if date.month < 3 then (date.year - 1, date.month + 9) else (date.year, date.month - 3)
  daysBeforeYear year + daysBeforeMonth month + date.day - 1 - epochDay

/-- Whether a year has a leap day. -/
def isLeap (year : Int) : Bool := year % 4 == 0 && (year % 100 != 0 || year % 400 == 0)

/-- The number of days of a month. -/
def daysInMonth (year : Int) (month : Nat) : Nat :=
  if month = 2 then (if isLeap year then 29 else 28)
  else if month = 4 ∨ month = 6 ∨ month = 9 ∨ month = 11 then 30
  else 31

/-- Whether a date exists. -/
def Date.Valid (date : Date) : Prop :=
  1 ≤ date.month ∧ date.month ≤ 12 ∧ 1 ≤ date.day ∧ date.day ≤ daysInMonth date.year date.month

instance (date : Date) : Decidable date.Valid := inferInstanceAs (Decidable (_ ∧ _))

/-- A day lies in its year. -/
theorem yearOfDay_spec (n : Int) :
    daysBeforeYear (yearOfDay n) ≤ n ∧ n < daysBeforeYear (yearOfDay n + 1) := by
  unfold yearOfDay daysBeforeYear
  dsimp only
  split
  · constructor <;> omega
  · split
    · constructor <;> omega
    · constructor <;> omega

/-- The day of the date of a day of a year. -/
theorem toDay_ofYearDay (year : Int) {inYear : Nat} (h : inYear < 366) :
    toDay (ofYearDay year inYear) = daysBeforeYear year + inYear - epochDay := by
  have hmonth : daysBeforeMonth ((5 * inYear + 2) / 153) ≤ inYear := by
    unfold daysBeforeMonth
    omega
  unfold ofYearDay toDay
  dsimp only
  split
  · next hm =>
    dsimp only
    rw [if_neg (by omega)]
    simp only [Nat.add_sub_cancel]
    omega
  · next hm =>
    dsimp only
    rw [if_pos (by omega)]
    have hback : (5 * inYear + 2) / 153 - 9 + 9 = (5 * inYear + 2) / 153 := by omega
    simp only [hback, Int.add_sub_cancel]
    omega

/-- The day of the date of a day is that day. -/
theorem toDay_ofDay (day : Int) : toDay (ofDay day) = day := by
  obtain ⟨hle, hlt⟩ := yearOfDay_spec (day + epochDay)
  unfold ofDay
  dsimp only
  generalize yearOfDay (day + epochDay) = year at hle hlt
  rw [toDay_ofYearDay]
  · omega
  · unfold daysBeforeYear at hle hlt ⊢
    omega

end TripArchive.Calendar
