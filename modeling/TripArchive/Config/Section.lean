import TripArchive.Setting

/-!
# Sections of the configuration

A section is a table of fields or, more rarely, the list of its fields in order. A field is
required, has a default, or is optional. A list leaves off only fields at its end, and none of
them may be required or optional.
-/

namespace TripArchive.Config

/-- What is said about the fields of a section. -/
inductive Section
  | named (fields : List (String × Setting))
  | listed (items : List Setting)
  deriving Repr

namespace Section

/-- The section that a setting states. -/
def ofSetting? : Setting → Option Section
  | .table fields => some (.named fields)
  | .list items => some (.listed items)
  | _ => none

/-- What is said about a field. -/
def get? (s : Section) (i : Nat) (name : String) : Option Setting :=
  match s with
  | .named fields => fields.lookup name
  | .listed items => items[i]?

/-- A required field. -/
def required {α : Type} (s : Section) (i : Nat) (name : String) (read : Setting → Option α) :
    Option α :=
  (s.get? i name).bind read

/-- A field with a default. -/
def withDefault {α : Type} (s : Section) (i : Nat) (name : String) (read : Setting → Option α)
    (default : α) : Option α :=
  match s.get? i name with
  | none => some default
  | some setting => read setting

/-- An optional field, for which null stands for nothing. -/
def optional {α : Type} (s : Section) (i : Nat) (name : String) (read : Setting → Option α) :
    Option (Option α) :=
  match s.get? i name, s with
  | none, .named _ => some none
  | none, .listed _ => none
  | some .null, _ => some none
  | some setting, _ => (read setting).map some

end Section

end TripArchive.Config
