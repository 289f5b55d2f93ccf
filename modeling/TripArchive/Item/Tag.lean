import TripArchive.Text.Quoted
import TripArchive.Text.Utf8

/-!
# Tags

The name and value pairs of a data item, and the limits they keep.
-/

namespace TripArchive

/-- A name with a value. -/
structure Tag where
  name : String
  value : String
  deriving DecidableEq, Repr

namespace Tag

/-- The most tags of an item. -/
def maxCount : Nat := 128

/-- The most bytes of a name. -/
def maxNameBytes : Nat := 1024

/-- The most bytes of a value. -/
def maxValueBytes : Nat := 3072

/-- A limit that some tags break. -/
inductive Excess
  | count (found : Nat)
  | nameLength (name : String)
  | valueLength (name : String)
  deriving DecidableEq, Repr

/-- The words for a broken limit. -/
def Excess.message : Excess → String
  | count found => s!"{found} tags, at most {maxCount} allowed"
  | nameLength name => s!"tag name must be 1..={maxNameBytes} bytes: {Quoted.encode name}"
  | valueLength name => s!"value of tag {Quoted.encode name} must be 1..={maxValueBytes} bytes"

/-- Whether a text has at least one and at most `most` bytes. -/
def Fits (most : Nat) (text : String) : Prop := 1 ≤ text.utf8ByteSize ∧ text.utf8ByteSize ≤ most

instance (most : Nat) (text : String) : Decidable (Fits most text) :=
  inferInstanceAs (Decidable (_ ∧ _))

/-- The first limit that a tag of a list breaks. -/
def firstExcess : List Tag → Option Excess
  | [] => none
  | tag :: tags =>
    if ¬ Fits maxNameBytes tag.name then some (.nameLength tag.name)
    else if ¬ Fits maxValueBytes tag.value then some (.valueLength tag.name)
    else firstExcess tags

/-- The first limit that a list of tags breaks: their number comes before any one of them. -/
def excess (tags : List Tag) : Option Excess :=
  if maxCount < tags.length then some (.count tags.length) else firstExcess tags

/-- Whether a list of tags keeps all limits. -/
def WithinLimits (tags : List Tag) : Prop :=
  tags.length ≤ maxCount ∧ ∀ tag ∈ tags, Fits maxNameBytes tag.name ∧ Fits maxValueBytes tag.value

instance (tags : List Tag) : Decidable (WithinLimits tags) := inferInstanceAs (Decidable (_ ∧ _))

theorem firstExcess_eq_none_iff (tags : List Tag) :
    firstExcess tags = none ↔
      ∀ tag ∈ tags, Fits maxNameBytes tag.name ∧ Fits maxValueBytes tag.value := by
  induction tags with
  | nil => simp [firstExcess]
  | cons tag tags ih =>
    simp only [firstExcess, List.mem_cons, forall_eq_or_imp]
    by_cases hname : Fits maxNameBytes tag.name
    · by_cases hvalue : Fits maxValueBytes tag.value
      · simp [hname, hvalue, ih]
      · simp [hname, hvalue]
    · simp [hname]

/-- No limit is found broken exactly when all are kept. -/
theorem excess_eq_none_iff (tags : List Tag) : excess tags = none ↔ WithinLimits tags := by
  unfold excess WithinLimits
  split
  · next h => simp only [reduceCtorEq, false_iff]; omega
  · next h =>
    rw [firstExcess_eq_none_iff]
    exact ⟨fun hall => ⟨by omega, hall⟩, fun hall => hall.2⟩

end Tag

end TripArchive
