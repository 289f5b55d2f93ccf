import TripArchive.Time.Calendar

/-!
# Instants

A moment is a number of seconds since 1970 and a fraction in nanoseconds. A fraction of a second
and more belongs to the leap second that follows the second it is attached to.
-/

namespace TripArchive

/-- A moment of universal time. -/
structure Instant where
  seconds : Int
  nanos : Nat
  deriving DecidableEq, Repr, Inhabited

namespace Instant

/-- Moments are ordered by seconds, then by fraction. -/
def lt (a b : Instant) : Bool :=
  a.seconds < b.seconds || (a.seconds == b.seconds && a.nanos < b.nanos)

/-- Whether a moment is not after another one. -/
def le (a b : Instant) : Bool := !lt b a

/-- The milliseconds since 1970, rounded to the past. -/
def millis (t : Instant) : Int := t.seconds * 1000 + (t.nanos / 1000000 : Nat)

/-- The day of a moment, counted from 1970-01-01. -/
def day (t : Instant) : Int := t.seconds / 86400

/-- The seconds of a moment since its day began. -/
def secondOfDay (t : Instant) : Nat := (t.seconds % 86400).toNat

end Instant

end TripArchive
