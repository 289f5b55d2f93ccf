import TripArchive.Number.Numeral
import TripArchive.Setting
import TripArchive.Time.Rfc3339

/-!
# Simple TOML values

Strings in their four forms, integers in four bases, doubles, truth values, dates and times. Each
reader takes the characters from the value's first one on and gives the value and what follows it.
A date or a time becomes its text.
-/

namespace TripArchive.Toml

/-- Whether a character is white space within a line. -/
def isBlank (c : Char) : Bool := c == ' ' || c == '\t'

/-- The characters after white space. -/
def skipBlank (chars : List Char) : List Char := chars.dropWhile isBlank

/-- The characters after a fixed text. -/
def after? (word : List Char) (chars : List Char) : Option (List Char) :=
  if word.isPrefixOf chars then some (chars.drop word.length) else none

/-- Whether a character may stand in a comment or a string: no control but the tab. -/
def isPlain (c : Char) : Bool := c == '\t' || (0x20 ≤ c.toNat && c != '\x7f')

/-- The characters after the end of a line, if one stands here. -/
def lineEnd? : List Char → Option (List Char)
  | '\n' :: rest => some rest
  | '\r' :: '\n' :: rest => some rest
  | _ => none

/-! ## Strings -/

/-- The character of hexadecimal digits, unless they name none. -/
def scalar? (digits : List Char) : Option Char := do
  let n ← Numeral.ofDigits? 16 digits
  if n < 0xd800 ∨ 0xdfff < n ∧ n < 0x110000 then some (Char.ofNat n) else none

/-- The character of an escape, and the characters after it. -/
def escape? : List Char → Option (Char × List Char)
  | 'b' :: rest => some ('\x08', rest)
  | 't' :: rest => some ('\t', rest)
  | 'n' :: rest => some ('\n', rest)
  | 'f' :: rest => some ('\x0c', rest)
  | 'r' :: rest => some ('\r', rest)
  | '"' :: rest => some ('"', rest)
  | '\\' :: rest => some ('\\', rest)
  | 'u' :: rest =>
    if rest.length < 4 then none else (scalar? (rest.take 4)).map fun c => (c, rest.drop 4)
  | 'U' :: rest =>
    if rest.length < 8 then none else (scalar? (rest.take 8)).map fun c => (c, rest.drop 8)
  | _ => none

/-- Reads a string in quotation marks after the opening one. -/
def basic? : (fuel : Nat) → List Char → Option (List Char × List Char)
  | 0, _ => none
  | fuel + 1, chars =>
    match chars with
    | [] => none
    | '"' :: rest => some ([], rest)
    | '\\' :: rest => do
      let (c, rest) ← escape? rest
      let (text, rest) ← basic? fuel rest
      some (c :: text, rest)
    | c :: rest =>
      if isPlain c then (basic? fuel rest).map fun (text, rest) => (c :: text, rest) else none

/-- Reads a string in apostrophes after the opening one. -/
def literal? : List Char → Option (List Char × List Char)
  | [] => none
  | '\x27' :: rest => some ([], rest)
  | c :: rest =>
    if isPlain c then (literal? rest).map fun (text, rest) => (c :: text, rest) else none

/-- Where a string between triple marks may end: at three marks. Up to two more marks before them
belong to the string. -/
def closing? (mark : Char) (chars : List Char) : Option (List Char × List Char) :=
  let marks := (chars.takeWhile (· == mark)).length
  if marks < 3 then none
  else some (List.replicate (min (marks - 3) 2) mark, chars.drop (min marks 5))

/-- The characters after all white space and line ends. -/
def skipLines : List Char → List Char
  | '\n' :: rest => skipLines rest
  | '\r' :: '\n' :: rest => skipLines rest
  | c :: rest => if isBlank c then skipLines rest else c :: rest
  | [] => []

/-- Reads a string between triple marks after the opening ones. Only quotation marks have escapes;
there a backslash at the end of a line also drops the white space up to the next character. -/
def block? (mark : Char) : (fuel : Nat) → List Char → Option (List Char × List Char)
  | 0, _ => none
  | fuel + 1, chars =>
    match closing? mark chars with
    | some found => some found
    | none =>
      match lineEnd? chars with
      | some rest => (block? mark fuel rest).map fun (text, rest) => ('\n' :: text, rest)
      | none =>
        match chars with
        | [] => none
        | c :: rest =>
          if c = '\\' ∧ mark = '"' then
            match lineEnd? (skipBlank rest) with
            | some rest => block? mark fuel (skipLines rest)
            | none => do
              let (c, rest) ← escape? rest
              let (text, rest) ← block? mark fuel rest
              some (c :: text, rest)
          else if isPlain c then
            (block? mark fuel rest).map fun (text, rest) => (c :: text, rest)
          else none

/-- Reads a string between triple marks. A line end right after the opening ones is dropped. -/
def blockString? (mark : Char) (chars : List Char) : Option (List Char × List Char) :=
  block? mark (chars.length + 1) ((lineEnd? chars).getD chars)

/-- Reads a string of any form. -/
def string? : List Char → Option (List Char × List Char)
  | '"' :: '"' :: '"' :: rest => blockString? '"' rest
  | '\x27' :: '\x27' :: '\x27' :: rest => blockString? '\x27' rest
  | '"' :: rest => basic? (rest.length + 1) rest
  | '\x27' :: rest => literal? rest
  | _ => none

/-! ## Numbers -/

/-- Digits of a base in which an underscore may stand between two digits. -/
def digits? (base : Nat) : List Char → Option (List Char × List Char)
  | [] => none
  | c :: rest =>
    if (Numeral.ofDigits? base [c]).isSome then
      match rest with
      | '_' :: next =>
        (digits? base next).map fun (digits, rest) => (c :: digits, rest)
      | rest =>
        match digits? base rest with
        | some (digits, rest) => some (c :: digits, rest)
        | none => some ([c], rest)
    else none

/-- Decimal digits that do not begin with a zero, or a lone zero. -/
def whole? : List Char → Option (List Char × List Char)
  | '0' :: rest => some (['0'], rest)
  | chars => digits? 10 chars

/-- The digits after the point, if there is a point. -/
def places? : List Char → Option ((Option (List Char)) × List Char)
  | '.' :: rest => (digits? 10 rest).map fun (digits, rest) => (some digits, rest)
  | chars => some (none, chars)

/-- The exponent, if there is one. -/
def exponent? : List Char → Option ((Option Int) × List Char)
  | [] => some (none, [])
  | c :: rest =>
    if c = 'e' ∨ c = 'E' then do
      let (negative, rest) := Numeral.sign rest
      let (digits, rest) ← digits? 10 rest
      let n ← Numeral.ofDigits? 10 digits
      some (some (if negative then -(n : Int) else n), rest)
    else some (none, c :: rest)

/-- An integer of sixty-four bits with a sign. -/
def ofInt? (n : Int) : Option Setting :=
  if IsInt64 n then some (.int n) else none

/-- Reads an integer in another base after its two first characters. -/
def radix? (base : Nat) (chars : List Char) : Option (Setting × List Char) := do
  let (digits, rest) ← digits? base chars
  let n ← Numeral.ofDigits? base digits
  let value ← ofInt? n
  some (value, rest)

/-- Reads a decimal number. Without point and exponent it is an integer. A double too large is
refused, unless it is negative. -/
def decimal? (chars : List Char) : Option (Setting × List Char) := do
  let (negative, chars) := Numeral.sign chars
  let (whole, rest) ← whole? chars
  let (places, rest) ← places? rest
  let (exponent, rest) ← exponent? rest
  let mantissa ← Numeral.ofDigits? 10 (whole ++ places.getD [])
  if places.isNone ∧ exponent.isNone then
    (ofInt? (if negative then -(mantissa : Int) else mantissa)).map (·, rest)
  else
    let x := Numeral.nearest negative mantissa (exponent.getD 0 - (places.getD []).length)
    if x.isInf && !negative then none else some (.double x, rest)

/-- Reads the words for infinity and for no number. -/
def special? (chars : List Char) : Option (Setting × List Char) := do
  let (negative, rest) := Numeral.sign chars
  match after? ['i', 'n', 'f'] rest, after? ['n', 'a', 'n'] rest with
  | some rest, _ => some (.double (if negative then -1.0 / 0.0 else 1.0 / 0.0), rest)
  | _, some rest => some (.double (0.0 / 0.0), rest)
  | _, _ => none

/-- Reads a number. -/
def number? : List Char → Option (Setting × List Char)
  | '0' :: 'x' :: rest => radix? 16 rest
  | '0' :: 'o' :: rest => radix? 8 rest
  | '0' :: 'b' :: rest => radix? 2 rest
  | chars => (special? chars).or (decimal? chars)

/-! ## Dates and times -/

/-- A number of exactly so many digits within bounds. -/
def fixed? (count low high : Nat) (chars : List Char) : Option (Nat × List Char) := do
  let digits := chars.take count
  if digits.length = count ∧ digits.all Char.isDigit then
    let n ← Numeral.ofDigits? 10 digits
    if low ≤ n ∧ n ≤ high then some (n, chars.drop count) else none
  else none

/-- Reads a date as its text. -/
def date? (chars : List Char) : Option (List Char × List Char) := do
  let (year, rest) ← fixed? 4 0 9999 chars
  let rest ← after? ['-'] rest
  let (month, rest) ← fixed? 2 1 12 rest
  let rest ← after? ['-'] rest
  let (day, rest) ← fixed? 2 1 (Calendar.daysInMonth year month) rest
  some (Rfc3339.padded 4 year ++ '-' :: Rfc3339.padded 2 month ++ '-' :: Rfc3339.padded 2 day, rest)

/-- The text of a fraction of a second: nine places at most and no zeros at its end. -/
def fractionText (digits : List Char) : List Char :=
  let kept := ((digits.take 9).reverse.dropWhile (· == '0')).reverse
  if kept.isEmpty then [] else '.' :: kept

/-- Reads a fraction of a second, if there is a point. -/
def secondFraction? : List Char → Option (List Char × List Char)
  | '.' :: rest =>
    let digits := rest.takeWhile Char.isDigit
    if digits.isEmpty then none else some (fractionText digits, rest.dropWhile Char.isDigit)
  | chars => some ([], chars)

/-- Reads a time of day as its text. -/
def time? (chars : List Char) : Option (List Char × List Char) := do
  let (hour, rest) ← fixed? 2 0 23 chars
  let rest ← after? [':'] rest
  let (minute, rest) ← fixed? 2 0 59 rest
  let rest ← after? [':'] rest
  let (second, rest) ← fixed? 2 0 60 rest
  let (fraction, rest) ← secondFraction? rest
  some (Rfc3339.padded 2 hour ++ ':' :: Rfc3339.padded 2 minute ++
    ':' :: Rfc3339.padded 2 second ++ fraction, rest)

/-- Reads the offset of a time as its text, if there is one. An offset of nothing has a plus. -/
def offset? : List Char → Option (List Char × List Char)
  | [] => some ([], [])
  | c :: rest =>
    if c = 'Z' ∨ c = 'z' then some (['Z'], rest)
    else if c = '+' ∨ c = '-' then do
      let (hour, rest) ← fixed? 2 0 23 rest
      let rest ← after? [':'] rest
      let (minute, rest) ← fixed? 2 0 59 rest
      let mark := if c = '-' ∧ (hour, minute) ≠ (0, 0) then '-' else '+'
      some (mark :: Rfc3339.padded 2 hour ++ ':' :: Rfc3339.padded 2 minute, rest)
    else some ([], c :: rest)

/-- Whether a time of day begins here: two digits and a colon. -/
def startsTime (chars : List Char) : Bool :=
  match chars with
  | a :: b :: ':' :: _ => a.isDigit && b.isDigit
  | _ => false

/-- Whether a date begins here: four digits and a hyphen. -/
def startsDate (chars : List Char) : Bool :=
  match chars with
  | a :: b :: c :: d :: '-' :: _ => [a, b, c, d].all Char.isDigit
  | _ => false

/-- Reads a date, a time, or both with or without an offset. -/
def moment? (chars : List Char) : Option (List Char × List Char) :=
  if startsDate chars then do
    let (date, rest) ← date? chars
    match rest with
    | c :: next =>
      if (c = 'T' ∨ c = 't' ∨ c = ' ') ∧ startsTime next then do
        let (time, rest) ← time? next
        let (offset, rest) ← offset? rest
        some (date ++ 'T' :: time ++ offset, rest)
      else some (date, rest)
    | [] => some (date, [])
  else time? chars

/-- Reads a value that holds no others. -/
def scalarValue? (chars : List Char) : Option (Setting × List Char) :=
  match chars with
  | '"' :: _ | '\x27' :: _ =>
    (string? chars).map fun (text, rest) => (.text (String.ofList text), rest)
  | 't' :: _ => (after? ['t', 'r', 'u', 'e'] chars).map (.bool true, ·)
  | 'f' :: _ => (after? ['f', 'a', 'l', 's', 'e'] chars).map (.bool false, ·)
  | _ =>
    if startsDate chars || startsTime chars then
      (moment? chars).map fun (text, rest) => (.text (String.ofList text), rest)
    else number? chars

end TripArchive.Toml
