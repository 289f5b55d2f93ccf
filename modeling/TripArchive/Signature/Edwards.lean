import TripArchive.Bytes
import TripArchive.Number.Width

/-!
# The twisted Edwards curve over 2^255 - 19

Field elements are natural numbers below the prime, points are in extended coordinates, and a
point travels as the thirty-two bytes of its ordinate with the parity of its abscissa in the
highest bit.
-/

namespace TripArchive.Edwards

/-- The prime of the field. -/
def prime : Nat := span 255 - 19

/-- The order of the base point. -/
def order : Nat := span 252 + 27742317777372353535851937790883648493

/-- Difference of two field elements. -/
def sub (x y : Nat) : Nat := (x + (prime - y % prime)) % prime

/-- Product of two field elements. -/
def mul (x y : Nat) : Nat := x * y % prime

/-- Power of a field element, by squaring. -/
def pow (base exponent : Nat) : Nat :=
  if exponent = 0 then 1
  else
    let half := pow (mul base base) (exponent / 2)
    if exponent % 2 = 1 then mul base half else half
  termination_by exponent
  decreasing_by omega

/-- Inverse of a field element; zero for zero. -/
def inverse (x : Nat) : Nat := pow x (prime - 2)

/-- The constant of the curve `-x² + y² = 1 + d x² y²`. -/
def d : Nat := mul (prime - 121665) (inverse 121666)

/-- A square root of minus one. -/
def rootOfMinusOne : Nat := pow 2 ((prime - 1) / 4)

/-- A point in extended coordinates: `x = X / Z`, `y = Y / Z`, `x y = T / Z`. -/
structure Point where
  x : Nat
  y : Nat
  z : Nat
  t : Nat

namespace Point

/-- The neutral point. -/
def zero : Point := ⟨0, 1, 1, 0⟩

/-- The point of two affine coordinates. -/
def ofAffine (x y : Nat) : Point := ⟨x, y, 1, mul x y⟩

/-- Sum of two points; the formula is complete on this curve. -/
def add (p q : Point) : Point :=
  let a := mul (sub p.y p.x) (sub q.y q.x)
  let b := mul (p.y + p.x) (q.y + q.x)
  let c := mul (mul p.t (2 * d)) q.t
  let e := mul (2 * p.z) q.z
  let f := sub b a
  let g := sub e c
  let h := (e + c) % prime
  let i := (b + a) % prime
  ⟨mul f g, mul h i, mul g h, mul f i⟩

/-- The opposite point. -/
def neg (p : Point) : Point := ⟨sub 0 p.x, p.y, p.z, sub 0 p.t⟩

/-- A multiple of a point, by doubling. -/
def smul (n : Nat) (p : Point) : Point :=
  if n = 0 then zero
  else
    let half := smul (n / 2) (add p p)
    if n % 2 = 1 then add p half else half
  termination_by n
  decreasing_by omega

/-- The thirty-two bytes of a point. -/
def compress (p : Point) : Bytes :=
  let inv := inverse p.z
  let x := mul p.x inv
  let y := mul p.y inv
  Bytes.ofNatLE 32 (y + x % 2 * span 255)

/-- An abscissa for an ordinate: a square root of `(y² - 1) / (d y² + 1)`, if there is one. -/
def abscissa? (y : Nat) : Option Nat :=
  let u := sub (mul y y) 1
  let v := (mul d (mul y y) + 1) % prime
  let v3 := mul v (mul v v)
  let candidate := mul (mul u v3) (pow (mul u (mul v3 (mul v3 v))) ((prime - 5) / 8))
  let check := mul v (mul candidate candidate)
  if check = u then some candidate
  else if check = sub 0 u then some (mul candidate rootOfMinusOne)
  else none

/-- The point of thirty-two bytes. The ordinate is taken modulo the prime, and the highest bit
chooses the parity of the abscissa. -/
def decompress? (bytes : Bytes) : Option Point :=
  if bytes.length = 32 then
    let n := Bytes.toNatLE bytes
    let y := n % span 255 % prime
    (abscissa? y).map fun x =>
      let x := x % prime
      ofAffine (if x % 2 = n / span 255 then x else sub 0 x) y
  else none

/-- The base point: its ordinate is four fifths and its abscissa is even. -/
def base : Point :=
  let y := mul 4 (inverse 5)
  let x := (abscissa? y).getD 0
  ofAffine (if x % 2 = 0 then x else sub 0 x) y

@[simp] theorem length_compress (p : Point) : p.compress.length = 32 := by
  simp [compress]

end Point

end TripArchive.Edwards
