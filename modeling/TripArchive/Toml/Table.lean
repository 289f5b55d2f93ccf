import TripArchive.Setting

/-!
# The tables of a TOML document

How the headers and the entries of a document build up its tables. A table is written once: under a
header of its own, by entries with dotted keys, or only as the parent of other tables. Lists of
tables grow by a table with each of their headers, and paths through them lead to their last table.
-/

namespace TripArchive.Toml

/-- How a table came about. -/
inductive Origin
  /-- By a header of its own. -/
  | header
  /-- As the parent in a header. -/
  | parent
  /-- As the parent in a dotted key. -/
  | dotted
  deriving DecidableEq, Repr

/-- What stands under a key. -/
inductive Node
  | value (v : Setting)
  | table (origin : Origin) (fields : List (String × Node))
  | tables (items : List (List (String × Node)))
  deriving Repr, Inhabited

/-- The keys of a table with what stands under them. -/
abbrev Fields := List (String × Node)

namespace Fields

/-- Changes what stands under a key, or under a key not yet there. -/
def alter? (key : String) (change : Option Node → Option Node) : Fields → Option Fields
  | [] => (change none).map fun node => [(key, node)]
  | (other, node) :: fields =>
    if other = key then (change (some node)).map fun node => (other, node) :: fields
    else (alter? key change fields).map ((other, node) :: ·)

/-- Changes the table at the end of a path. Tables that are missing on the way are made. A dotted
key does not lead into a table with a header of its own. -/
def within? (isDotted : Bool) (change : Origin → Fields → Option Fields) :
    List String → Origin → Fields → Option Fields
  | [], origin, fields => change origin fields
  | key :: path, _, fields =>
    let made := if isDotted then Origin.dotted else Origin.parent
    fields.alter? key fun
      | none => (within? isDotted change path made []).map (.table made)
      | some (.value _) => none
      | some (.table origin fields) =>
        if isDotted ∧ origin = .header then none
        else (within? isDotted change path origin fields).map (.table origin)
      | some (.tables items) => do
        let last ← items.getLast?
        let last ← within? isDotted change path .header last
        some (.tables (items.dropLast ++ [last]))

/-- Opens the table of a header. -/
def openTable? (parents : List String) (key : String) (fields : Fields) : Option Fields :=
  within? false (fun _ fields => fields.alter? key fun
    | none => some (.table .header [])
    | some (.table .parent fields) => some (.table .header fields)
    | _ => none) parents .header fields

/-- Adds a table to the list of tables of a header. -/
def appendTable? (parents : List String) (key : String) (fields : Fields) : Option Fields :=
  within? false (fun _ fields => fields.alter? key fun
    | none => some (.tables [[]])
    | some (.tables items) => some (.tables (items ++ [[]]))
    | _ => none) parents .header fields

/-- Sets the value of a dotted key. -/
def insert? (parents : List String) (key : String) (value : Setting) (fields : Fields) :
    Option Fields :=
  within? true (fun origin fields =>
    if !parents.isEmpty && origin != .dotted then none
    else fields.alter? key fun
      | none => some (.value value)
      | some _ => none) parents .header fields

/-- Sets the value of a dotted key in the table of a header. -/
def insertUnder? (header parents : List String) (key : String) (value : Setting)
    (fields : Fields) : Option Fields :=
  within? false (fun _ fields => fields.insert? parents key value) header .header fields

end Fields

mutual

/-- What stands under a key, as a setting. -/
def Node.toSetting : Node → Setting
  | .value v => v
  | .table _ fields => .table (fieldSettings fields)
  | .tables items => .list (tableSettings items)

/-- What stands under the keys of a table, as settings. -/
def fieldSettings : List (String × Node) → List (String × Setting)
  | [] => []
  | (key, node) :: fields => (key, node.toSetting) :: fieldSettings fields

/-- A list of tables as settings. -/
def tableSettings : List (List (String × Node)) → List Setting
  | [] => []
  | fields :: items => .table (fieldSettings fields) :: tableSettings items

end

end TripArchive.Toml
