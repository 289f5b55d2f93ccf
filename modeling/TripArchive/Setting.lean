import TripArchive.Json.Raw
import TripArchive.Number.Numeral

/-!
# Settings

A setting as a file or a variable states it, before its place says of which kind it has to be.
Reading converts between kinds: words and numbers stand for truth values, and so on. Settings from
several places are laid over each other table by table. Names are compared without regard to case.
-/

namespace TripArchive

/-- What some source says about a setting. -/
inductive Setting
  | null
  | bool (b : Bool)
  | int (n : Int)
  | double (x : Float)
  | text (s : String)
  | list (items : List Setting)
  | table (fields : List (String × Setting))
  deriving Repr, Inhabited

namespace Setting

/-- The lower case of a character. The Kelvin sign is the only character beyond the first 128 whose
lower case is among them, and no name holds any of the others. -/
def lowerChar (c : Char) : Char := if c = '\u212a' then 'k' else c.toLower

/-- A name or a word in lower case. -/
def lower (name : String) : String := String.ofList (name.toList.map lowerChar)

mutual

/-- A JSON value as a setting. An integer beyond sixty-four bits with a sign is a double. -/
def ofJson : Json → Setting
  | .null => .null
  | .bool b => .bool b
  | .number (.int n) => if n ≤ maxInt64 then .int n else .double (Double.ofInt n)
  | .number (.double x) => .double x
  | .string s => .text s
  | .array items => .list (ofJsons items)
  | .object fields => .table (ofJsonFields fields)

/-- JSON values as settings. -/
def ofJsons : List Json → List Setting
  | [] => []
  | item :: items => ofJson item :: ofJsons items

/-- JSON fields as settings. -/
def ofJsonFields : List (String × Json) → List (String × Setting)
  | [] => []
  | (key, value) :: fields => (key, ofJson value) :: ofJsonFields fields

end

/-! ## Laying settings over each other -/

/-- The fields of a table; nothing else has any. -/
def fields : Setting → List (String × Setting)
  | .table fields => fields
  | _ => []

/-- Sets a field, in place of an earlier one of that name. -/
def putField (name : String) (value : Setting) : List (String × Setting) → List (String × Setting)
  | [] => [(name, value)]
  | (other, old) :: fields =>
    if other = name then (name, value) :: fields else (other, old) :: putField name value fields

mutual

/-- Lays a setting over another one. A table adds its fields; anything else replaces what it
covers. -/
def cover (base : Option Setting) : Setting → Setting
  | .table upper => coverFields (base.getD (.table [])) upper
  | upper => upper

/-- Lays fields over a setting. -/
def coverFields (base : Setting) : List (String × Setting) → Setting
  | [] => base
  | (name, value) :: upper =>
    coverFields
      (.table (putField (lower name) (cover (base.fields.lookup (lower name)) value) base.fields))
      upper

end

/-- Lays a setting over what stands at the end of a path. -/
def put (value : Setting) : List String → Option Setting → Setting
  | [], base => cover base value
  | name :: path, base =>
    let fields := (base.getD .null).fields
    .table (putField name (put value path (fields.lookup name)) fields)

/-- Whether a character may stand in a name on a path. -/
def isNameChar (c : Char) : Bool := c.isAlphanum || c == '_' || c == '-' || c == ' '

/-- The path that a name spells, whose parts are separated by points; other names have one part. -/
def path (name : String) : List String :=
  let parts := (name.toList.splitOn '.').map String.ofList
  if parts.all fun part => !part.isEmpty && part.all isNameChar then parts else [name]

/-- Lays named settings over a setting, each at the path that its name spells. -/
def coverAll (base : Setting) (upper : List (String × Setting)) : Setting :=
  upper.foldl (fun base (name, value) => put value (path (lower name)) (some base)) base

/-! ## Conversions -/

/-- The truth value that a word stands for. -/
def wordTruth? (word : String) : Option Bool :=
  if word = "true" ∨ word = "on" ∨ word = "yes" then some true
  else if word = "false" ∨ word = "off" ∨ word = "no" then some false
  else none

/-- The truth value that a setting stands for. -/
def truth? : Setting → Option Bool
  | .bool b => some b
  | .int n => some (n != 0)
  | .double x => some (x != 0.0)
  | .text s =>
    if s = "1" then some true else if s = "0" then some false else wordTruth? (lower s)
  | _ => none

/-- The natural number below a limit that a setting stands for. A double is rounded, a half away
from zero, and a double outside the range of sixty-four bits counts as the end of the range. -/
def natBelow? (limit : Nat) (setting : Setting) : Option Nat := do
  let n ← match setting with
    | .bool b => some b.toNat
    | .int n => if 0 ≤ n then some n.toNat else none
    | .double x => some x.round.toUInt64.toNat
    | .text s =>
      match wordTruth? (lower s) with
      | some b => some b.toNat
      | none => Numeral.nat? s.toList
    | _ => none
  if n < limit then some n else none

/-- The text that a setting stands for. -/
def text? : Setting → Option String
  | .bool b => some (if b then "true" else "false")
  | .int n => some (toString n)
  | .double x => some (String.ofList (Numeral.plain x))
  | .text s => some s
  | _ => none

end Setting

end TripArchive
