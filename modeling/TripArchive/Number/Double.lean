import TripArchive.Number.Width

/-!
# Doubles and decimals

Reading a decimal gives the nearest double. Writing a double uses the fewest digits that read back,
and of those the nearest; both are exact integer arithmetic on the double's fraction and exponent.
-/

namespace TripArchive.Double

/-- The number of decimal digits of a number. -/
def digitCount (n : Nat) : Nat := (Nat.toDigits 10 n).length

/-- The double nearest to `mantissa * 10 ^ exponent` with a sign; `none` if it is too large. -/
def ofDecimal? (negative : Bool) (mantissa : Nat) (exponent : Int) : Option Float :=
  let size := digitCount mantissa + exponent
  if mantissa = 0 ∨ size < -330 then some (if negative then -0.0 else 0.0)
  else if 310 < size then none
  else
    let x := Float.ofScientific mantissa (exponent < 0) exponent.natAbs
    if x.isInf then none else some (if negative then -x else x)

/-- The double nearest to an integer. -/
def ofInt (n : Int) : Float := if n < 0 then -(Float.ofNat n.natAbs) else Float.ofNat n.natAbs

/-- A finite double without its sign: `fraction * 2 ^ exponent`, and whether the next smaller
double is only half as far away as the next larger one. -/
structure Parts where
  fraction : Nat
  exponent : Int
  uneven : Bool

/-- The parts of a finite double. -/
def parts (x : Float) : Parts :=
  let bits := x.toBits.toNat
  let fraction := bits % span 52
  let exponent : Nat := bits / span 52 % 2048
  if exponent = 0 then ⟨fraction, -1074, false⟩
  else ⟨span 52 + fraction, (exponent : Int) - 1075, fraction = 0 ∧ 1 < exponent⟩

/-- A decimal `digits * 10 ^ exponent`. -/
structure Decimal where
  digits : Nat
  exponent : Int
  deriving DecidableEq, Repr

/-- The power of a base with a natural exponent; one for a negative exponent. -/
def power (base : Nat) (exponent : Int) : Nat := Nat.pow base exponent.toNat

/-- Of the two neighbours of a double among the multiples of `10 ^ grid`, the nearer one that reads
back as the double, the even one if both are equally near. All comparisons are in units of a
quarter of the double's last place. -/
def onGrid? (p : Parts) (grid : Int) : Option Decimal :=
  let a := power 10 grid * power 2 (2 - p.exponent)
  let b := power 2 (p.exponent - 2) * power 10 (-grid)
  let value := 4 * p.fraction * b
  let low := (if p.uneven then 4 * p.fraction - 1 else 4 * p.fraction - 2) * b
  let high := (4 * p.fraction + 2) * b
  let inside (c : Nat) : Bool :=
    if p.fraction % 2 = 0 then low ≤ c * a && c * a ≤ high else low < c * a && c * a < high
  let below := value / a
  let above := below + 1
  let belowNearer :=
    value - below * a < above * a - value ||
      (value - below * a == above * a - value && below % 2 == 0)
  if inside below && (belowNearer || !inside above) && below != 0 then some ⟨below, grid⟩
  else if inside above then some ⟨above, grid⟩
  else none

/-- How many zeros follow the point of a number below one, counted from one on. -/
def leadingZeros (num den : Nat) : (fuel : Nat) → Nat
  | 0 => 1
  | fuel + 1 => if den ≤ num * 10 then 1 else leadingZeros (num * 10) den fuel + 1

/-- The place of the first digit of a double: it is at least `10 ^ (place - 1)` and below
`10 ^ place`. -/
def place (p : Parts) : Int :=
  let num := p.fraction * power 2 p.exponent
  let den := power 2 (-p.exponent)
  if den ≤ num then digitCount (num / den) else 1 - leadingZeros num den 400

/-- Drops the zeros at the end of a decimal's digits. -/
def dropZeros : (fuel : Nat) → Decimal → Decimal
  | 0, d => d
  | fuel + 1, d =>
    if d.digits % 10 = 0 then dropZeros fuel ⟨d.digits / 10, d.exponent + 1⟩ else d

/-- The shortest decimal that reads back as a positive finite double. -/
def shortest (x : Float) : Decimal :=
  let p := parts x
  let found := (List.range 17).findSome? fun n => onGrid? p (place p - (n + 1 : Nat))
  dropZeros 400 (found.getD ⟨p.fraction, p.exponent⟩)

/-- Whether the sign bit of a double is set. -/
def isNegative (x : Float) : Bool := span 63 ≤ x.toBits.toNat

/-- Plain decimal notation with digits on both sides of the point where there are any. -/
def plain (digits : List Char) (point : Int) : List Char × List Char :=
  if point ≤ 0 then (['0'], List.replicate (-point).toNat '0' ++ digits)
  else if digits.length ≤ point then
    (digits ++ List.replicate (point.toNat - digits.length) '0', [])
  else (digits.take point.toNat, digits.drop point.toNat)

end TripArchive.Double
