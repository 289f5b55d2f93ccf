import TripArchive.Number.Double
import TripArchive.Bytes

/-!
# Numerals

Texts that spell a number, and plain decimal notation of doubles.
-/

namespace TripArchive.Numeral

/-- The value of digits in a base, the most significant first; `none` without digits or with
another character among them. -/
def ofDigits? (base : Nat) (digits : List Char) : Option Nat :=
  if digits.isEmpty then none
  else digits.foldlM (fun n c => do
    let d ← Bytes.hexValue? c
    if d < base then some (base * n + d) else none) 0

/-- A sign, if there is one, and what follows it. -/
def sign : List Char → Bool × List Char
  | '-' :: chars => (true, chars)
  | '+' :: chars => (false, chars)
  | chars => (false, chars)

/-- A natural number in decimal digits, with or without a plus sign. -/
def nat? (text : List Char) : Option Nat :=
  match text with
  | '+' :: digits => ofDigits? 10 digits
  | digits => ofDigits? 10 digits

/-- An integer in decimal digits, with or without a sign. -/
def int? (text : List Char) : Option Int :=
  let (negative, digits) := sign text
  (ofDigits? 10 digits).map fun n => if negative then -(n : Int) else n

/-- The double nearest to a decimal, which is infinite if the decimal is too large. -/
def nearest (negative : Bool) (mantissa : Nat) (exponent : Int) : Float :=
  (Double.ofDecimal? negative mantissa exponent).getD
    (if negative then -1.0 / 0.0 else 1.0 / 0.0)

/-- The exponent at the end of a decimal: nothing, or a letter and an integer. -/
def exponent? : List Char → Option Int
  | [] => some 0
  | c :: chars => if c = 'e' ∨ c = 'E' then int? chars else none

/-- A decimal without its sign: digits on at least one side of the point, and an exponent. -/
def unsigned? (negative : Bool) (text : List Char) : Option Float := do
  let whole := text.takeWhile Char.isDigit
  let rest := text.dropWhile Char.isDigit
  let (places, rest) :=
    match rest with
    | '.' :: rest => (rest.takeWhile Char.isDigit, rest.dropWhile Char.isDigit)
    | rest => ([], rest)
  let mantissa ← ofDigits? 10 (whole ++ places)
  let exponent ← exponent? rest
  some (nearest negative mantissa (exponent - places.length))

/-- A double: a decimal or one of the words for infinity and for no number. -/
def double? (text : List Char) : Option Float :=
  let (negative, rest) := sign text
  let word := String.ofList (rest.map Char.toLower)
  if word = "inf" ∨ word = "infinity" then some (if negative then -1.0 / 0.0 else 1.0 / 0.0)
  else if word = "nan" then some (0.0 / 0.0)
  else unsigned? negative rest

/-- A double in plain notation: the shortest digits, a point only before a fraction, and never an
exponent. -/
def plain (x : Float) : List Char :=
  if x.isNaN then ['N', 'a', 'N']
  else
    let sign := if Double.isNegative x then ['-'] else []
    let size := if Double.isNegative x then -x else x
    if x.isInf then sign ++ ['i', 'n', 'f']
    else if x == 0.0 then sign ++ ['0']
    else
      let d := Double.shortest size
      let digits := Nat.toDigits 10 d.digits
      let (whole, fraction) := Double.plain digits (digits.length + d.exponent)
      sign ++ whole ++ if fraction.isEmpty then [] else '.' :: fraction

end TripArchive.Numeral
