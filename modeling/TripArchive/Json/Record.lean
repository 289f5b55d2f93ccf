import TripArchive.Json.Raw

/-!
# Records in JSON texts

A record is sent as an object or as an array of its fields in order. `Slots` holds what stands in
the place of each field. An object may leave out a field that has a default and may hold unknown
fields; a field given twice is refused. An array may leave off fields at its end that have a
default, and holds no others.
-/

namespace TripArchive.Json

/-- A reader of one kind of value. `depth` is how deep the text may still nest. -/
abbrev Reader (α : Type) := (depth : Nat) → Raw → Option α

/-- What a record sends for each of its fields. -/
abbrev Slots := List (Option Raw)

namespace Slots

/-- What an object sends for a field: nothing or one text. -/
def find? (name : String) : List (Option String × Raw) → Option (Option Raw)
  | [] => some none
  | (key, value) :: fields => do
    let later ← find? name fields
    if key = some name then
      if later.isSome then none else some (some value)
    else some later

/-- The fields of an object in the order of their names, unless a key is no text or a field is
given twice. -/
def ofFields? (names : List String) (fields : List (Option String × Raw)) : Option Slots :=
  if fields.all fun field => field.1.isSome then names.mapM fun name => find? name fields
  else none

/-- The items of an array as fields; it may be shorter than the record but not longer. -/
def ofItems? (names : List String) (items : List Raw) : Option Slots :=
  if items.length ≤ names.length then
    some (items.map some ++ List.replicate (names.length - items.length) none)
  else none

/-- What a text sends for the fields of a record. -/
def ofRaw? (names : List String) : Raw → Option Slots
  | .object fields => ofFields? names fields
  | .array items => ofItems? names items
  | _ => none

/-- What is sent for a field. -/
def get (slots : Slots) (i : Nat) : Option Raw := slots.getD i none

/-- A field that has to be sent. -/
def required {α : Type} (slots : Slots) (i : Nat) (read : Reader α) (depth : Nat) : Option α :=
  (slots.get i).bind (read depth)

/-- A field with a default. -/
def withDefault {α : Type} (slots : Slots) (i : Nat) (default : α) (read : Reader α)
    (depth : Nat) : Option α :=
  match slots.get i with
  | none => some default
  | some raw => read depth raw

end Slots

namespace Reader

/-- Reads a record, one level of nesting down. -/
def record {α : Type} (names : List String) (read : Slots → (depth : Nat) → Option α) : Reader α :=
  fun depth raw =>
    if depth = 0 then none else (Slots.ofRaw? names raw).bind fun slots => read slots (depth - 1)

/-- Reads a text. -/
def string : Reader String := fun _ raw =>
  match raw with
  | .string s => s
  | _ => none

/-- Reads a truth value. -/
def bool : Reader Bool := fun _ raw =>
  match raw with
  | .bool b => some b
  | _ => none

/-- Reads an integer in a range. -/
def int (low high : Int) : Reader Int := fun _ raw =>
  match raw with
  | .number (some (.int n)) => if low ≤ n ∧ n ≤ high then some n else none
  | _ => none

/-- Reads a double; an integer stands for the nearest one. -/
def double : Reader Float := fun _ raw =>
  match raw with
  | .number (some (.int n)) => some (Double.ofInt n)
  | .number (some (.double x)) => some x
  | _ => none

/-- Reads any value. -/
def value : Reader Json := Raw.value

/-- Reads null as nothing. -/
def nullable {α : Type} (read : Reader α) : Reader (Option α) := fun depth raw =>
  match raw with
  | .null => some none
  | raw => (read depth raw).map some

/-- Reads the items of an array, one level of nesting down. -/
def list {α : Type} (read : Reader α) : Reader (List α) := fun depth raw =>
  match raw with
  | .array items => if depth = 0 then none else items.mapM (read (depth - 1))
  | _ => none

end Reader

/-- Reads a text with a reader. -/
def decode? {α : Type} (read : Reader α) (bytes : Bytes) : Option α :=
  (Raw.parse? bytes).bind (read maxDepth)

/-- Reads a value with a reader; a value that is kept may nest as deep as it does. -/
def convert? {α : Type} (read : Reader α) (value : Json) : Option α := read value.depth value.toRaw

end TripArchive.Json
