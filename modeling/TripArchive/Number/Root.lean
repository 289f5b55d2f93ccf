/-!
# Integer roots and small primes

Bisection for the integer part of a root, and the first primes by trial division. The hash
functions take their constants from the roots of the first primes.
-/

namespace TripArchive.Number

/-- The largest number below `start + 2 ^ bits` that is at least `start` and whose `power`-th power
is at most `n`, for a `start` whose power is. -/
def rootFrom (power n : Nat) : (bits start : Nat) → Nat
  | 0, start => start
  | bits + 1, start =>
    let next := start + Nat.pow 2 bits
    if Nat.pow next power ≤ n then rootFrom power n bits next else rootFrom power n bits start

/-- The integer part of the `power`-th root of a number below `2 ^ (bits * power)`. -/
def root (power bits n : Nat) : Nat := rootFrom power n bits 0

/-- Whether a number has no divisor strictly between one and itself. -/
def isPrime (n : Nat) : Bool :=
  2 ≤ n && (List.range n).all fun d => d < 2 || n % d != 0

/-- The primes below four hundred and ten: there are eighty of them. -/
def primes : List Nat := (List.range 410).filter isPrime

end TripArchive.Number
