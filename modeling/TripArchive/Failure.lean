/-!
# Errors and panics

A computation stops without a value in one of two ways. It returns an error, which its caller may
handle, or it panics, and then nothing is returned at all.
-/

namespace TripArchive

/-- How a computation stops that has no value. -/
inductive Failure (ε : Type)
  /-- It returns an error. -/
  | refused (error : ε)
  /-- It panics, with these words. -/
  | panicked (words : String)
  deriving DecidableEq, Repr

namespace Failure

variable {ε ε' α : Type}

/-- The same failure with its error renamed. -/
def map (rename : ε → ε') : Failure ε → Failure ε'
  | refused error => refused (rename error)
  | panicked words => panicked words

/-- What never panics may be a step of what may. -/
instance : MonadLift (Except ε) (Except (Failure ε)) where
  monadLift answer := answer.mapError refused

theorem lift_ok (a : α) : (liftM (Except.ok a : Except ε α) : Except (Failure ε) α) = .ok a := rfl

/-- A step that never panics has the value that it has by itself. -/
theorem lift_eq_ok {answer : Except ε α} {a : α} :
    (liftM answer : Except (Failure ε) α) = .ok a ↔ answer = .ok a := by
  cases answer with
  | ok value => rw [lift_ok, Except.ok.injEq, Except.ok.injEq]
  | error e => constructor <;> intro h <;> cases h

/-- A step that never panics does not panic as a step of what may. -/
theorem lift_ne_panicked (answer : Except ε α) (words : String) :
    (liftM answer : Except (Failure ε) α) ≠ .error (panicked words) := by
  intro h
  cases answer with
  | ok value => cases h
  | error e => cases h

end Failure

end TripArchive
