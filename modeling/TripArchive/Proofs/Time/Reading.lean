import TripArchive.Proofs.Time.Calendar
import TripArchive.Proofs.Time.Rfc3339

/-!
# Written times are read back

Every part of a written time ends where the next one begins, so that it is read by itself. A moment
that can be held is read back with the fraction that was written (`read?_write`); one that is a leap
second of a minute stays one.
-/

namespace TripArchive

namespace Relaxed

variable {n width most : Nat} {digits rest : List Char} {c : Char}

/-- Whether some characters do not go on with a digit. -/
def EndsNumber (rest : List Char) : Prop := ∀ c ∈ rest.head?, isDigit c = false

/-- Core's digits are the digits here. -/
theorem isDigit_of_isDigit (h : c.isDigit = true) : isDigit c = true := by
  simp only [Char.isDigit, Bool.and_eq_true, decide_eq_true_eq] at h
  simp only [isDigit, Bool.and_eq_true, decide_eq_true_eq, Char.le_def]
  exact h

/-- The decimal digits of a number spell it. -/
theorem digitsValue_toDigits (n : Nat) : digitsValue (Nat.toDigits 10 n) = n :=
  Nat.ofDigitChars_toDigits (by decide) (by decide)

/-- Zeros before the digits of a number do not count. -/
theorem digitsValue_padded (width n : Nat) : digitsValue (Rfc3339.padded width n) = n := by
  unfold Rfc3339.padded
  dsimp only
  generalize width - (Nat.toDigits 10 n).length = zeros
  induction zeros with
  | zero => exact digitsValue_toDigits n
  | succ zeros ih => exact ih

/-- A padded number has digits only. -/
theorem isDigit_of_mem_padded (h : c ∈ Rfc3339.padded width n) : isDigit c = true := by
  rcases List.mem_append.mp h with hzero | hdigit
  · rw [List.eq_of_mem_replicate hzero]
    rfl
  · exact isDigit_of_isDigit (Nat.isDigit_of_mem_toDigits (by decide) (by decide) hdigit)

/-- A padded number begins with a digit. -/
theorem padded_ne_nil (width n : Nat) : Rfc3339.padded width n ≠ [] := by
  intro hnil
  exact Nat.toDigits_ne_nil (List.append_eq_nil_iff.mp hnil).2

/-- Digits are read up to where they end. -/
theorem number?_append (hdigits : ∀ c ∈ digits, isDigit c = true) (hsome : digits ≠ [])
    (hmost : digits.length ≤ most) (hends : EndsNumber rest) :
    number? most (digits ++ rest) = some (digitsValue digits, rest) := by
  have hrest : rest.takeWhile isDigit = [] := by
    cases rest with
    | nil => rfl
    | cons c rest => simp [hends c rfl]
  have htaken : ((digits ++ rest).takeWhile isDigit).take most = digits := by
    rw [List.takeWhile_append_of_pos hdigits, hrest, List.append_nil, List.take_of_length_le hmost]
  unfold number?
  rw [htaken]
  simp [hsome]

/-- A padded number is read up to where it ends. -/
theorem number?_padded (hmost : (Rfc3339.padded width n).length ≤ most) (hends : EndsNumber rest) :
    number? most (Rfc3339.padded width n ++ rest) = some (n, rest) := by
  rw [number?_append (fun _ => isDigit_of_mem_padded) (padded_ne_nil width n) hmost hends,
    digitsValue_padded]

/-- A digit is no blank. -/
theorem isBlank_of_isDigit (h : isDigit c = true) : Blank.isBlank c = false := by
  simp only [isDigit, Bool.and_eq_true, decide_eq_true_eq] at h
  have hlow : '0'.toNat ≤ c.toNat := h.1
  have hhigh : c.toNat ≤ '9'.toNat := h.2
  have hzero : '0'.toNat = 48 := rfl
  have hnine : '9'.toNat = 57 := rfl
  unfold Blank.isBlank
  simp
  omega

/-- Nothing is skipped before a character that is no blank. -/
theorem skip_cons (h : Blank.isBlank c = false) : skip (c :: rest) = c :: rest := by
  simp [skip, h]

/-- A padded number begins with a digit. -/
theorem exists_padded (width n : Nat) :
    ∃ c chars, Rfc3339.padded width n = c :: chars ∧ isDigit c = true := by
  obtain ⟨c, chars, hchars⟩ := List.exists_cons_of_ne_nil (padded_ne_nil width n)
  exact ⟨c, chars, hchars, isDigit_of_mem_padded (hchars ▸ List.mem_cons_self)⟩

/-- Nothing is skipped before a padded number. -/
theorem skip_padded : skip (Rfc3339.padded width n ++ rest) = Rfc3339.padded width n ++ rest := by
  obtain ⟨c, chars, hchars, hdigit⟩ := exists_padded width n
  rw [hchars]
  exact skip_cons (isBlank_of_isDigit hdigit)

/-- Two digits are read up to where they end. -/
theorem short?_padded (hn : n < 100) (hends : EndsNumber rest) :
    short? (Rfc3339.padded 2 n ++ rest) = some (n, rest) := by
  unfold short?
  rw [skip_padded]
  exact number?_padded (Rfc3339.length_padded_le (by decide) (by decide) hn) hends

/-- A separator is read. -/
theorem separator?_cons (h : Blank.isBlank c = false) : separator? c (c :: rest) = some rest := by
  simp [separator?, skip_cons h, expect?]

/-- A written year is read up to where it ends. -/
theorem year?_writeYear (year : Int) (hends : EndsNumber rest) :
    year? (Rfc3339.writeYear year ++ rest) = some (year, rest) := by
  have hroom (width n : Nat) : (Rfc3339.padded width n).length ≤
      (Rfc3339.padded width n ++ rest).length := by
    rw [List.length_append]
    omega
  unfold Rfc3339.writeYear
  split
  · next hplain =>
    have hfour : (Rfc3339.padded 4 year.toNat).length ≤ 4 :=
      Rfc3339.length_padded_le (by decide) (by decide) (by omega)
    have hnumber := number?_padded hfour hends
    unfold year?
    rw [skip_padded]
    obtain ⟨c, chars, hchars, hdigit⟩ := exists_padded 4 year.toNat
    split
    · next hsign =>
      rw [hchars] at hsign
      cases hsign
      cases hdigit
    · next hsign =>
      rw [hchars] at hsign
      cases hsign
      cases hdigit
    · simp only [hnumber, Option.map_some, Int.toNat_of_nonneg hplain.1]
  · split
    · next hpositive =>
      rw [List.cons_append, year?, skip_cons (by decide)]
      simp only [number?_padded (hroom _ _) hends, Option.map_some, Int.toNat_of_nonneg hpositive]
    · next hnegative =>
      rw [List.cons_append, year?, skip_cons (by decide)]
      simp only [number?_padded (hroom _ _) hends, Option.map_some, Option.some.injEq,
        Prod.mk.injEq, and_true]
      omega

end Relaxed

namespace Rfc3339

open Relaxed

/-- What is left of a fraction of a second when it is written. -/
def Precision.keep : Precision → Nat → Nat
  | millis, nanos => nanos / 1000000 * 1000000
  | exact, nanos => nanos

/-- A number with enough digits is padded to its width. -/
theorem length_padded {width n : Nat} (hwidth : 0 < width) (h : n < 10 ^ width) :
    (padded width n).length = width := by
  have hmost := length_padded_le hwidth (Nat.le_refl width) h
  unfold padded at hmost ⊢
  simp only [List.length_append, List.length_replicate] at hmost ⊢
  omega

/-- Up to nine digits after the point are read as the nanoseconds that they stand for. -/
theorem fraction?_padded {width n : Nat} (hwidth : 0 < width ∧ width ≤ 9) (h : n < 10 ^ width) :
    fraction? ('.' :: padded width n ++ ['Z']) = some (n * Nat.pow 10 (9 - width), ['Z']) := by
  have hlength := length_padded hwidth.1 h
  have hdigits : (padded width n ++ ['Z']).takeWhile isDigit = padded width n := by
    rw [List.takeWhile_append_of_pos fun _ => isDigit_of_mem_padded]
    simp [isDigit]
  have hkept : (padded width n).take 9 = padded width n := List.take_of_length_le (by omega)
  rw [List.cons_append, fraction?]
  simp [hdigits, hkept, padded_ne_nil, digitsValue_padded, hlength]

/-- A written fraction is read back. -/
theorem fraction?_writeFraction (precision : Precision) {nanos : Nat} (h : nanos < 1000000000) :
    fraction? (writeFraction precision nanos ++ ['Z']) = some (precision.keep nanos, ['Z']) := by
  cases precision with
  | millis => exact fraction?_padded (by decide) (by omega)
  | exact =>
    unfold writeFraction Precision.keep
    dsimp only
    split
    · next hzero =>
      rw [hzero]
      rfl
    · split
      · next hmillis =>
        rw [fraction?_padded (by decide) (by omega)]
        congr 2
        exact Nat.div_mul_cancel (Nat.dvd_of_mod_eq_zero hmillis)
      · split
        · next hmicros =>
          rw [fraction?_padded (by decide) (by omega)]
          congr 2
          exact Nat.div_mul_cancel (Nat.dvd_of_mod_eq_zero hmicros)
        · rw [fraction?_padded (by decide) (by omega)]
          congr 2
          exact Nat.mul_one nanos

/-- The moment that a written time stands for: with the fraction that was kept, and after a second
that does not end its minute the leap second is the second that follows. -/
def Precision.settle (precision : Precision) (t : Instant) : Instant :=
  if t.nanos < 1000000000 ∨ t.seconds % 60 = 59 then
    ⟨t.seconds, t.nanos / 1000000000 * 1000000000 + precision.keep (t.nanos % 1000000000)⟩
  else ⟨t.seconds + 1, precision.keep (t.nanos % 1000000000)⟩

/-- The parts of a written time make the moment that it stands for. -/
theorem moment?_parts (precision : Precision) {t : Instant} (h : t.InCalendar) :
    moment? (Calendar.ofDay t.day) (t.secondOfDay / 3600) (t.secondOfDay / 60 % 60)
        (t.secondOfDay % 60 + t.nanos / 1000000000) (precision.keep (t.nanos % 1000000000)) 0 =
      some (precision.settle t) := by
  have hnanos := h.2
  have hday : t.seconds = t.day * 86400 + t.secondOfDay := by
    unfold Instant.day Instant.secondOfDay
    omega
  have hsecond : t.secondOfDay < 86400 := by
    unfold Instant.secondOfDay
    omega
  obtain ⟨hfirst, hlast⟩ := Calendar.year_ofDay_mem h.1
  unfold moment?
  dsimp only
  rw [if_pos ⟨Calendar.valid_ofDay t.day, hfirst, hlast, by omega, by omega, by omega, by decide,
    by decide⟩, Calendar.toDay_ofDay]
  -- The seconds that are put together stay on the day, also with a leap second among them.
  have hrange {seconds : Int} (hsame : seconds / 86400 = t.day) :
      Relaxed.inRange (seconds / 86400) = true := hsame ▸ h.1
  unfold Precision.settle
  generalize precision.keep (t.nanos % 1000000000) = kept
  by_cases hplain : t.nanos < 1000000000
  · have hzero : t.nanos / 1000000000 = 0 := by omega
    have hreading : (if t.secondOfDay % 60 + 0 = 60 then (59, kept + 1000000000)
        else (t.secondOfDay % 60 + 0, kept)) = (t.secondOfDay % 60, kept) := if_neg (by omega)
    rw [hzero, hreading, if_pos (hrange (by omega)), if_pos (Or.inl hplain)]
    simp only [Option.some.injEq, Instant.mk.injEq]
    omega
  · have hone : t.nanos / 1000000000 = 1 := by omega
    by_cases hlastSecond : t.seconds % 60 = 59
    · have hreading : (if t.secondOfDay % 60 + 1 = 60 then (59, kept + 1000000000)
          else (t.secondOfDay % 60 + 1, kept)) = (59, kept + 1000000000) := if_pos (by omega)
      rw [hone, hreading, if_pos (hrange (by omega)), if_pos (Or.inr hlastSecond)]
      simp only [Option.some.injEq, Instant.mk.injEq]
      omega
    · have hreading : (if t.secondOfDay % 60 + 1 = 60 then (59, kept + 1000000000)
          else (t.secondOfDay % 60 + 1, kept)) = (t.secondOfDay % 60 + 1, kept) :=
        if_neg (by omega)
      have hneither : ¬ (t.nanos < 1000000000 ∨ t.seconds % 60 = 59) := by omega
      rw [hone, hreading, if_pos (hrange (by omega)), if_neg hneither]
      simp only [Option.some.injEq, Instant.mk.injEq, and_true]
      omega

/-- A written fraction does not go on with a digit. -/
theorem endsNumber_writeFraction (precision : Precision) (nanos : Nat) :
    EndsNumber (writeFraction precision nanos ++ ['Z']) := by
  have hpoint (rest : List Char) : EndsNumber ('.' :: rest) := by
    rintro _ ⟨⟩
    rfl
  cases precision with
  | millis => exact hpoint _
  | exact =>
    unfold writeFraction
    dsimp only
    split
    · rintro _ ⟨⟩
      rfl
    · split
      · exact hpoint _
      · split
        · exact hpoint _
        · exact hpoint _

/-- A written time is read back as the moment that it stands for. -/
theorem read?_write (precision : Precision) {t : Instant} (h : t.InCalendar) :
    read? (write precision t) = some (precision.settle t) := by
  have hnanos := h.2
  have hends (c : Char) (rest : List Char) (hc : isDigit c = false) : EndsNumber (c :: rest) := by
    rintro _ ⟨⟩
    exact hc
  have hdash (rest : List Char) := hends '-' rest rfl
  have hcolon (rest : List Char) := hends ':' rest rfl
  have hletter (rest : List Char) := hends 'T' rest rfl
  obtain ⟨_, hmonth, _, hdate⟩ := Calendar.valid_ofDay t.day
  have hdayOfMonth : (Calendar.ofDay t.day).day < 100 := by
    unfold Calendar.daysInMonth at hdate
    split at hdate
    · split at hdate <;> omega
    · split at hdate <;> omega
  have hsecond : t.secondOfDay < 86400 := by
    unfold Instant.secondOfDay
    omega
  have htext : (write precision t).toList =
      writeYear (Calendar.ofDay t.day).year ++ ('-' :: (padded 2 (Calendar.ofDay t.day).month ++
        ('-' :: (padded 2 (Calendar.ofDay t.day).day ++ ('T' :: (padded 2 (t.secondOfDay / 3600) ++
          (':' :: (padded 2 (t.secondOfDay / 60 % 60) ++
            (':' :: (padded 2 (t.secondOfDay % 60 + t.nanos / 1000000000) ++
              (writeFraction precision (t.nanos % 1000000000) ++ ['Z']))))))))))) := by
    simp only [write, writeDate, writeTime, String.toList_ofList, List.append_assoc,
      List.cons_append]
  have hmoment := moment?_parts precision h
  unfold read?
  rw [htext]
  simp only [bind, Option.bind, year?_writeYear _ (hdash _), separator?_cons (c := '-') rfl,
    separator?_cons (c := ':') rfl, short?_padded (Nat.lt_of_le_of_lt hmonth (by decide)) (hdash _),
    short?_padded hdayOfMonth (hletter _), true_or, if_true,
    short?_padded (show t.secondOfDay / 3600 < 100 by omega) (hcolon _),
    short?_padded (show t.secondOfDay / 60 % 60 < 100 by omega) (hcolon _),
    short?_padded (show t.secondOfDay % 60 + t.nanos / 1000000000 < 100 by omega)
      (endsNumber_writeFraction _ _),
    fraction?_writeFraction _ (Nat.mod_lt t.nanos (show 0 < 1000000000 by decide))]
  have hzone : offset? (skip ['Z']) = some (0, []) := rfl
  rw [hzone]
  exact hmoment

/-- Nothing of a moment is lost when its whole fraction is written, unless it is a leap second that
its minute does not have. -/
theorem settle_exact {t : Instant} (h : t.nanos < 1000000000 ∨ t.seconds % 60 = 59) :
    Precision.exact.settle t = t := by
  unfold Precision.settle
  rw [if_pos h]
  simp only [Precision.keep, Nat.div_add_mod']

end Rfc3339

end TripArchive
