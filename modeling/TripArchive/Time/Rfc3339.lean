import TripArchive.Time.Instant

/-!
# Times as texts

The written form of a moment, as RFC 3339 has it: date and time of day in universal time, with a
`Z` at the end. A year outside 0 to 9999 carries a sign, and a leap second is the sixtieth.
-/

namespace TripArchive.Rfc3339

/-- The decimal digits of a number, with zeros in front up to `width`. -/
def padded (width n : Nat) : List Char :=
  let digits := Nat.toDigits 10 n
  List.replicate (width - digits.length) '0' ++ digits

/-- A year: four digits, or a sign and at least four digits. -/
def writeYear (year : Int) : List Char :=
  if 0 ≤ year ∧ year ≤ 9999 then padded 4 year.toNat
  else if 0 ≤ year then '+' :: padded 4 year.toNat
  else '-' :: padded 4 (-year).toNat

/-- How many digits of the fraction are written. -/
inductive Precision
  /-- Always three. -/
  | millis
  /-- None, three, six or nine: as few as keep the fraction. -/
  | exact

/-- The fraction of a second below one. -/
def writeFraction (precision : Precision) (nanos : Nat) : List Char :=
  match precision with
  | .millis => '.' :: padded 3 (nanos / 1000000)
  | .exact =>
    if nanos = 0 then []
    else if nanos % 1000000 = 0 then '.' :: padded 3 (nanos / 1000000)
    else if nanos % 1000 = 0 then '.' :: padded 6 (nanos / 1000)
    else '.' :: padded 9 nanos

/-- The date of a moment. -/
def writeDate (t : Instant) : List Char :=
  let date := Calendar.ofDay t.day
  writeYear date.year ++ '-' :: padded 2 date.month ++ '-' :: padded 2 date.day

/-- The time of day of a moment. -/
def writeTime (precision : Precision) (t : Instant) : List Char :=
  let second := t.secondOfDay
  let leap := t.nanos / 1000000000
  padded 2 (second / 3600) ++ ':' :: padded 2 (second / 60 % 60) ++
    ':' :: padded 2 (second % 60 + leap) ++ writeFraction precision (t.nanos % 1000000000)

/-- The text of a moment. -/
def write (precision : Precision) (t : Instant) : String :=
  String.ofList (writeDate t ++ 'T' :: writeTime precision t ++ ['Z'])

end TripArchive.Rfc3339
