/-!
# Values and errors

When a sequence of steps that may fail has a value, and when an answer does whose error is renamed.
-/

namespace TripArchive

/-- Renaming the error of an answer leaves its value. -/
theorem mapError_ok {α ε ε' : Type} (rename : ε → ε') (a : α) :
    (Except.ok a : Except ε α).mapError rename = .ok a := rfl

/-- Renaming the error of an answer makes no value. -/
theorem mapError_eq_ok {α ε ε' : Type} {rename : ε → ε'} {answer : Except ε α} {a : α} :
    answer.mapError rename = .ok a ↔ answer = .ok a := by
  cases answer with
  | ok value => rw [mapError_ok, Except.ok.injEq, Except.ok.injEq]
  | error e => constructor <;> intro h <;> cases h

/-- An answer whose value is changed has a value if the answer has one. -/
theorem map_eq_ok {α β ε : Type} {change : α → β} {answer : Except ε α} {b : β} :
    answer.map change = .ok b ↔ ∃ a, answer = .ok a ∧ change a = b := by
  cases answer <;> simp [Except.map]

/-- An answer whose value is changed has the errors of the answer. -/
theorem map_eq_error {α β ε : Type} {change : α → β} {answer : Except ε α} {e : ε} :
    answer.map change = .error e ↔ answer = .error e := by
  cases answer <;> simp [Except.map]

/-- A sequence of two steps has a value if both steps have one. -/
theorem bind_eq_ok {α β ε : Type} {first : Except ε α} {second : α → Except ε β} {b : β} :
    (first >>= second) = .ok b ↔ ∃ a, first = .ok a ∧ second a = .ok b := by
  cases first <;> simp [bind, Except.bind]

/-- A sequence of two steps fails as the first step does, or behind it as the second does. -/
theorem bind_eq_error {α β ε : Type} {first : Except ε α} {second : α → Except ε β} {e : ε} :
    (first >>= second) = .error e ↔
      first = .error e ∨ ∃ a, first = .ok a ∧ second a = .error e := by
  cases first <;> simp [bind, Except.bind]

end TripArchive
