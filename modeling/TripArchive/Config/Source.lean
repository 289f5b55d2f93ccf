import TripArchive.Config
import TripArchive.Toml

/-!
# Where the configuration comes from

A file states settings in TOML or JSON, and variables of the environment override them. The name of
a variable is a marker and then the path of a setting with a double underscore between its parts.
-/

namespace TripArchive.Config

/-- A configuration file. -/
inductive File
  | toml (text : String)
  | json (text : String)
  deriving DecidableEq, Repr

/-- The settings that a file states, by their names; `none` if it cannot be read. -/
def File.settings? : File → Option (List (String × Setting))
  | toml text => (Toml.parse? text).map Setting.fields
  | json text =>
    match Json.parse? (Utf8.encode text) with
    | some (.object fields) => some (Setting.ofJson (.object fields)).fields
    | _ => none

/-- What the name of a variable begins with, in lower case. -/
def variableMarker : List Char := ['t', 'r', 'i', 'p', 's', '_', '_']

/-- The characters of a variable's name with a point for each double underscore. -/
def pointed : List Char → List Char
  | '_' :: '_' :: rest => '.' :: pointed rest
  | c :: rest => c :: pointed rest
  | [] => []

/-- The name of the setting that a variable overrides. -/
def settingName? (name : String) : Option String :=
  let name := (Setting.lower name).toList
  if variableMarker.isPrefixOf name then
    some (String.ofList (pointed (name.drop variableMarker.length)))
  else none

/-- The value of a variable: a truth value, an integer of sixty-four bits, a double or a text. -/
def variableValue (value : String) : Setting :=
  let word := Setting.lower value
  if word = "true" then .bool true
  else if word = "false" then .bool false
  else
    match Numeral.int? value.toList with
    | some n =>
      if IsInt64 n then .int n
      else (Numeral.double? value.toList).elim (.text value) .double
    | none => (Numeral.double? value.toList).elim (.text value) .double

/-- The settings that variables override. -/
def overrides (given : List (String × String)) : List (String × Setting) :=
  given.filterMap fun (name, value) =>
    (settingName? name).map fun setting => (setting, variableValue value)

/-- The configuration of a file's settings alone. -/
def ofFile (file : File) : Except Error Config :=
  match file.settings? with
  | none => .error .unreadable
  | some settings => ofSettings (Setting.coverAll (.table []) settings)

/-- The configuration of a file, if there is one, and the environment, which goes before the
file. -/
def load (file : Option File) (environment : List (String × String)) : Except Error Config :=
  match file.elim (some []) File.settings? with
  | none => .error .unreadable
  | some settings =>
    ofSettings (Setting.coverAll (.table []) (settings ++ overrides environment))

end TripArchive.Config
