import TripArchive.Text.Blank
import TripArchive.Time.Rfc3339

/-!
# Reading times

The relaxed form of RFC 3339 in which senders may write a time: short numbers, blanks between the
parts, three separators of date and time, any offset. What `Rfc3339.write` produces is one such
form.
-/

namespace TripArchive.Relaxed

/-- The characters after leading blanks. -/
def skip (chars : List Char) : List Char := chars.dropWhile Blank.isBlank

/-- The value of a decimal digit. -/
def digitValue (c : Char) : Nat := c.toNat - 48

/-- Whether a character is a decimal digit. -/
def isDigit (c : Char) : Bool := '0' ≤ c && c ≤ '9'

/-- The number that some digits spell. -/
def digitsValue (digits : List Char) : Nat :=
  digits.foldl (fun n c => 10 * n + digitValue c) 0

/-- One to `most` digits. -/
def number? (most : Nat) (chars : List Char) : Option (Nat × List Char) :=
  let digits := (chars.takeWhile isDigit).take most
  if digits.isEmpty then none else some (digitsValue digits, chars.drop digits.length)

/-- The characters after a given one. -/
def expect? (c : Char) : List Char → Option (List Char)
  | [] => none
  | d :: rest => if d = c then some rest else none

/-- A year: up to four digits, or a sign and any number of them. -/
def year? (chars : List Char) : Option (Int × List Char) :=
  match skip chars with
  | '-' :: rest =>
    (number? rest.length rest).map fun (n, rest) => (-(n : Int), rest)
  | '+' :: rest => (number? rest.length rest).map fun (n, rest) => ((n : Int), rest)
  | chars => (number? 4 chars).map fun (n, rest) => ((n : Int), rest)

/-- A number of one or two digits after blanks. -/
def short? (chars : List Char) : Option (Nat × List Char) := number? 2 (skip chars)

/-- A separator after blanks. -/
def separator? (c : Char) (chars : List Char) : Option (List Char) := expect? c (skip chars)

/-- Nanoseconds: at least one digit after the point, those past the ninth do not count. -/
def fraction? (chars : List Char) : Option (Nat × List Char) :=
  match chars with
  | '.' :: rest =>
    let digits := rest.takeWhile isDigit
    let kept := digits.take 9
    if digits.isEmpty then none
    else some (digitsValue kept * Nat.pow 10 (9 - kept.length), rest.drop digits.length)
  | _ => some (0, chars)

/-- A two-digit number that may not be shorter. -/
def twoDigits? : List Char → Option (Nat × List Char)
  | a :: b :: rest =>
    if isDigit a && isDigit b then some (10 * digitValue a + digitValue b, rest) else none
  | _ => none

/-- Hours and minutes of an offset, in seconds. Any colons and blanks may stand between them. -/
def offsetSize? (chars : List Char) : Option (Nat × List Char) := do
  let (hours, rest) ← twoDigits? chars
  let (minutes, rest) ← twoDigits? (rest.dropWhile fun c => c == ':' || Blank.isBlank c)
  if minutes < 60 then some (hours * 3600 + minutes * 60, rest) else none

/-- The offset from universal time, in seconds: `Z`, `UTC` or a signed size. -/
def offset? (chars : List Char) : Option (Int × List Char) :=
  match chars with
  | 'Z' :: rest => some (0, rest)
  | 'z' :: rest => some (0, rest)
  | '+' :: rest => (offsetSize? rest).map fun (n, rest) => ((n : Int), rest)
  | '-' :: rest => (offsetSize? rest).map fun (n, rest) => (-(n : Int), rest)
  | '\u2212' :: rest => (offsetSize? rest).map fun (n, rest) => (-(n : Int), rest)
  | a :: b :: c :: rest =>
    if a.toUpper = 'U' ∧ b.toUpper = 'T' ∧ c.toUpper = 'C' then some (0, rest) else none
  | _ => none

/-- The first and the last year of the calendar. -/
def yearRange : Int × Int := (-262143, 262142)

/-- Whether a day lies in the years of the calendar. -/
def inRange (day : Int) : Bool :=
  Calendar.toDay ⟨yearRange.1, 1, 1⟩ ≤ day && day ≤ Calendar.toDay ⟨yearRange.2, 12, 31⟩

/-- The moment of a date, a time of day and an offset. The sixtieth second is the leap second
after the fifty-ninth. -/
def moment? (date : Calendar.Date) (hour minute second nanos : Nat) (offset : Int) :
    Option Instant :=
  let valid := date.Valid ∧ yearRange.1 ≤ date.year ∧ date.year ≤ yearRange.2 ∧
    hour < 24 ∧ minute < 60 ∧ second ≤ 60 ∧ -86400 < offset ∧ offset < 86400
  if valid then
    let (second, nanos) := if second = 60 then (59, nanos + 1000000000) else (second, nanos)
    let seconds := Calendar.toDay date * 86400 + (hour * 3600 + minute * 60 + second : Nat) - offset
    if inRange (seconds / 86400) then some ⟨seconds, nanos⟩ else none
  else none

/-- Reads a time. -/
def read? (text : String) : Option Instant := do
  let (year, rest) ← year? text.toList
  let rest ← separator? '-' rest
  let (month, rest) ← short? rest
  let rest ← separator? '-' rest
  let (day, rest) ← short? rest
  let rest ←
    match rest with
    | c :: rest => if c = 'T' ∨ c = 't' ∨ c = ' ' then some rest else none
    | [] => none
  let (hour, rest) ← short? rest
  let rest ← separator? ':' rest
  let (minute, rest) ← short? rest
  let rest ← separator? ':' rest
  let (second, rest) ← short? rest
  let (nanos, rest) ← fraction? rest
  let (offset, rest) ← offset? (skip rest)
  if (skip rest).isEmpty then moment? ⟨year, month, day⟩ hour minute second nanos offset else none

end TripArchive.Relaxed
