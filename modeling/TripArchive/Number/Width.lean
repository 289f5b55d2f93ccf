/-!
# Widths

The bounds of integers of a fixed number of bits.
-/

namespace TripArchive

/-- How many natural numbers have at most so many bits. -/
def span (bits : Nat) : Nat := Nat.pow 2 bits

/-- The least integer of sixty-four bits with a sign. -/
def minInt64 : Int := -9223372036854775808

/-- The greatest integer of sixty-four bits with a sign. -/
def maxInt64 : Int := 9223372036854775807

/-- The greatest integer of sixty-four bits without a sign. -/
def maxNat64 : Nat := 18446744073709551615

/-- Whether an integer has sixty-four bits with a sign. -/
def IsInt64 (n : Int) : Prop := minInt64 ≤ n ∧ n ≤ maxInt64

instance (n : Int) : Decidable (IsInt64 n) := inferInstanceAs (Decidable (_ ∧ _))

end TripArchive
