import TripArchive.Json.Basic

/-!
# The log

Lines with a level and fields, and the filter that says which lines are written. A filter is a list
of directives, each of which names a level, a part of the program, or both.
-/

namespace TripArchive.Log

/-- How much a line matters. -/
inductive Level
  | error
  | warn
  | info
  | debug
  | trace
  deriving DecidableEq, Repr

/-- The rank of a level; a filter that admits a level admits all of lower rank. -/
def Level.rank : Level → Nat
  | error => 1
  | warn => 2
  | info => 3
  | debug => 4
  | trace => 5

/-- How a level is written. -/
def Level.name : Level → String
  | error => "ERROR"
  | warn => "WARN"
  | info => "INFO"
  | debug => "DEBUG"
  | trace => "TRACE"

/-- One line of the log. -/
structure Line where
  level : Level
  message : String
  fields : List (String × Json)
  deriving Repr

/-- A line as a value: its level, its message and its fields by name. -/
def Line.toJson (line : Line) : Json :=
  .array [.string line.level.name, .string line.message, Json.sorted line.fields]

/-! ## Filters -/

/-- A part of a filter: up to which rank the lines of a part of the program are written. The empty
name is the whole program. -/
structure Directive where
  target : String
  rank : Nat
  deriving DecidableEq, Repr

/-- What lines of this program are called in a filter. -/
def target : String := "trips_service"

/-- The rank that a word or a digit names. -/
def rank? (word : String) : Option Nat :=
  let word := word.map Char.toLower
  (["off", "error", "warn", "info", "debug", "trace"].idxOf? word).or
    (["0", "1", "2", "3", "4", "5"].idxOf? word)

/-- Whether a character may stand in the name of a part of the program. -/
def isTargetChar (c : Char) : Bool := c.isAlphanum || c == '_' || c == ':' || c == '-'

/-- The directive that a text states. A word that names no level names a part of the program, all
of whose lines are written. -/
def directive? (text : String) : Option Directive :=
  match rank? text with
  | some rank => some ⟨"", rank⟩
  | none =>
    let name := text.toList.takeWhile isTargetChar
    if name.isEmpty then none
    else
      match text.toList.dropWhile isTargetChar with
      | [] => some ⟨String.ofList name, 5⟩
      | '=' :: [] => some ⟨String.ofList name, 5⟩
      | '=' :: level => (rank? (String.ofList level)).map fun rank => ⟨String.ofList name, rank⟩
      | _ => none

/-- The parts of a filter's text. -/
def parts (text : String) : List String :=
  ((text.toList.splitOn ',').filter fun part => !part.isEmpty).map String.ofList

/-- The filter of a text in which every part has to be a directive. -/
def strict? (text : String) : Option (List Directive) := (parts text).mapM directive?

/-- The filter of a text without the parts that are no directives. -/
def lenient (text : String) : List Directive := (parts text).filterMap directive?

/-- The rank up to which lines are written: that of the last directive among those with the longest
name that the program's begins with. An empty filter writes errors. -/
def admitted (directives : List Directive) : Nat :=
  if directives.isEmpty then Level.error.rank
  else
    let best := directives.foldl (fun best d =>
      if d.target.toList.isPrefixOf target.toList then
        match best with
        | none => some d
        | some (b : Directive) => if b.target.length ≤ d.target.length then some d else some b
      else best) none
    best.elim 0 Directive.rank

/-- The rank up to which lines are written: the environment's filter, if it is one, goes before the
configured one. -/
def rankOf (environment : Option String) (configured : String) : Nat :=
  admitted ((environment.bind strict?).getD (lenient configured))

end TripArchive.Log
