import TripArchive.Toml.Scalar
import TripArchive.Toml.Table

/-!
# TOML documents

Reading a document line by line: headers open tables, and entries set the values of keys. The
result is the document's top table.
-/

namespace TripArchive.Toml

/-- The deepest nesting of lists and tables within a value, and the most parts of a key. -/
def maxDepth : Nat := 79

/-! ## Keys -/

/-- Whether a character may stand in a key without marks. -/
def isBareChar (c : Char) : Bool := c.isAlphanum || c == '_' || c == '-'

/-- Reads one part of a key. -/
def part? (chars : List Char) : Option (String × List Char) :=
  match chars with
  | '"' :: rest => (basic? (rest.length + 1) rest).map fun (key, rest) => (String.ofList key, rest)
  | '\x27' :: rest => (literal? rest).map fun (key, rest) => (String.ofList key, rest)
  | chars =>
    let key := chars.takeWhile isBareChar
    if key.isEmpty then none else some (String.ofList key, chars.dropWhile isBareChar)

/-- Reads the parts of a key, which points separate, and the white space after it. -/
def parts? : (fuel : Nat) → List Char → Option (List String × List Char)
  | 0, _ => none
  | fuel + 1, chars => do
    let (part, rest) ← part? (skipBlank chars)
    match skipBlank rest with
    | '.' :: rest => do
      let (parts, rest) ← parts? fuel rest
      some (part :: parts, rest)
    | rest => some ([part], rest)

/-- Reads a key: the parts before the last one, and the last one. -/
def key? (chars : List Char) : Option ((List String × String) × List Char) := do
  let (parts, rest) ← parts? maxDepth chars
  let last ← parts.getLast?
  some ((parts.dropLast, last), rest)

/-! ## Values -/

/-- The characters after a comment, if one stands here. Only plain characters stand in it. -/
def skipComment : List Char → List Char
  | '#' :: rest => rest.dropWhile isPlain
  | chars => chars

/-- The characters after white space, comments and line ends. A comment ends with its line. -/
def skipGap : (fuel : Nat) → List Char → List Char
  | 0, chars => chars
  | fuel + 1, chars =>
    match skipBlank chars with
    | '#' :: rest =>
      match lineEnd? (rest.dropWhile isPlain) with
      | some rest => skipGap fuel rest
      | none => '#' :: rest
    | chars =>
      match lineEnd? chars with
      | some rest => skipGap fuel rest
      | none => chars

/-- The characters after a gap of any length. -/
def afterGap (chars : List Char) : List Char := skipGap (chars.length + 1) chars

/-- Reads the items of a list after its opening bracket. A comma may follow the last item. -/
def items? (item? : List Char → Option (Setting × List Char)) :
    (fuel : Nat) → List Char → Option (List Setting × List Char)
  | 0, _ => none
  | fuel + 1, chars =>
    match afterGap chars with
    | ']' :: rest => some ([], rest)
    | chars => do
      let (item, rest) ← item? chars
      match afterGap rest with
      | ']' :: rest => some ([item], rest)
      | ',' :: rest => do
        let (items, rest) ← items? item? fuel rest
        some (item :: items, rest)
      | _ => none

/-- Reads an entry: a key, an equals sign and a value. -/
def entry? (item? : List Char → Option (Setting × List Char)) (chars : List Char) :
    Option (((List String × String) × Setting) × List Char) := do
  let (key, rest) ← key? chars
  let rest ← after? ['='] rest
  let (value, rest) ← item? (skipBlank rest)
  some ((key, value), rest)

/-- Reads the entries of a table within a line after its first brace. -/
def entries? (item? : List Char → Option (Setting × List Char)) :
    (fuel : Nat) → Fields → List Char → Option (Fields × List Char)
  | 0, _, _ => none
  | fuel + 1, fields, chars => do
    let (((parents, key), value), rest) ← entry? item? chars
    let fields ← fields.insert? parents key value
    match skipBlank rest with
    | '\x7d' :: rest => some (fields, rest)
    | ',' :: rest => entries? item? fuel fields rest
    | _ => none

/-- Reads a value that nests at most `depth` deep. -/
def value? : (depth : Nat) → List Char → Option (Setting × List Char)
  | 0, chars => scalarValue? chars
  | depth + 1, chars =>
    match chars with
    | '[' :: rest =>
      (items? (value? depth) (rest.length + 1) rest).map fun (items, rest) => (.list items, rest)
    | '\x7b' :: rest =>
      match skipBlank rest with
      | '\x7d' :: rest => some (.table [], rest)
      | rest =>
        (entries? (value? depth) (rest.length + 1) [] rest).map fun (fields, rest) =>
          (.table (fieldSettings fields), rest)
    | chars => scalarValue? chars

/-! ## Lines -/

/-- One line of a document. -/
inductive Line
  /-- The header of a table. -/
  | header (parents : List String) (key : String)
  /-- The header of one more table of a list. -/
  | listHeader (parents : List String) (key : String)
  /-- The value of a key in the table of the last header. -/
  | entry (parents : List String) (key : String) (value : Setting)

/-- Reads one line that is not blank and holds more than a comment. -/
def line? (chars : List Char) : Option (Line × List Char) :=
  match chars with
  | '[' :: '[' :: rest => do
    let ((parents, key), rest) ← key? rest
    let rest ← after? [']', ']'] rest
    some (.listHeader parents key, rest)
  | '[' :: rest => do
    let ((parents, key), rest) ← key? rest
    let rest ← after? [']'] rest
    some (.header parents key, rest)
  | chars => do
    let (((parents, key), value), rest) ← entry? (value? maxDepth) chars
    some (.entry parents key value, rest)

/-- Reads the lines of a document. -/
def lines? : (fuel : Nat) → List Char → Option (List Line)
  | 0, _ => none
  | fuel + 1, chars =>
    match skipBlank chars with
    | [] => some []
    | c :: rest =>
      match lineEnd? (skipComment (c :: rest)), skipComment (c :: rest) with
      | some rest, _ => lines? fuel rest
      | none, [] => some []
      | none, _ => do
        let (line, rest) ← line? (c :: rest)
        match skipComment (skipBlank rest) with
        | [] => some [line]
        | rest => do
          let rest ← lineEnd? rest
          let lines ← lines? fuel rest
          some (line :: lines)

/-- A document while it is read: its top table and the path of the last header. -/
structure Draft where
  fields : Fields
  header : List String

/-- What a line adds to a document. -/
def Draft.add? (draft : Draft) : Line → Option Draft
  | .header parents key =>
    (draft.fields.openTable? parents key).map fun fields => ⟨fields, parents ++ [key]⟩
  | .listHeader parents key =>
    (draft.fields.appendTable? parents key).map fun fields => ⟨fields, parents ++ [key]⟩
  | .entry parents key value =>
    (draft.fields.insertUnder? draft.header parents key value).map fun fields =>
      { draft with fields := fields }

/-- Reads a document. -/
def parse? (text : String) : Option Setting := do
  let chars := text.toList
  let chars := match chars with
    | '\ufeff' :: rest => rest
    | chars => chars
  let lines ← lines? (chars.length + 1) chars
  let draft ← lines.foldlM Draft.add? ⟨[], []⟩
  some (.table (fieldSettings draft.fields))

end TripArchive.Toml
