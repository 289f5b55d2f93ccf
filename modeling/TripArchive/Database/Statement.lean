import TripArchive.Bytes

/-!
# Statements

The few forms of SQL statements that the service sends, how they are written, and what they do to a
row or read from it.
-/

namespace TripArchive.Database

/-- A value of a column or a parameter. Times are microseconds since 1970. -/
inductive Value
  | null
  | int (n : Int)
  | text (s : String)
  | bool (b : Bool)
  | bytes (b : Bytes)
  | double (x : Float)
  | time (micros : Int)
  | point (x y : Float)
  deriving DecidableEq, Repr, Inhabited

/-- A value that may be absent. -/
def Value.ofOption {α : Type} (write : α → Value) : Option α → Value
  | none => .null
  | some a => write a

/-- The named values of a row. -/
abbrev Row := List (String × Value)

namespace Row

/-- The value of a column; a column that is not there holds null. -/
def get (row : Row) (column : String) : Value := (row.lookup column).getD .null

/-- Sets the value of a column. -/
def set (row : Row) (column : String) (value : Value) : Row :=
  (column, value) :: row.filter fun entry => entry.1 ≠ column

end Row

/-! ## Storing -/

/-- What is stored in a column. Parameters are counted from one. -/
inductive Expr
  | param (n : Nat)
  /-- The point of two coordinates. -/
  | point (x y : Nat)
  | bool (b : Bool)
  | int (n : Int)
  deriving DecidableEq, Repr

namespace Expr

/-- How a parameter is written. -/
def paramText (n : Nat) : String := s!"${n}"

/-- How an expression is written. -/
def text : Expr → String
  | param n => paramText n
  | point x y => s!"point({paramText x}, {paramText y})"
  | bool b => if b then "TRUE" else "FALSE"
  | int n => toString n

/-- The value of a parameter. -/
def paramValue (params : List Value) (n : Nat) : Value := params.getD (n - 1) .null

/-- The value of an expression. A point without one of its coordinates is null. -/
def eval (params : List Value) : Expr → Value
  | param n => paramValue params n
  | point x y =>
    match paramValue params x, paramValue params y with
    | .double x, .double y => .point x y
    | _, _ => .null
  | bool b => .bool b
  | int n => .int n

end Expr

/-! ## Reading -/

/-- One of the coordinates of a point. -/
inductive Axis
  | x
  | y
  deriving DecidableEq, Repr

/-- The number of a coordinate. -/
def Axis.index : Axis → Nat
  | x => 0
  | y => 1

/-- What is read from a row: a column, or a coordinate of a point under a name of its own. -/
inductive Output
  | column (name : String)
  | coordinate (source : String) (axis : Axis) (name : String)
  deriving DecidableEq, Repr

namespace Output

/-- How an output is written. -/
def text : Output → String
  | column name => name
  | coordinate source axis name => s!"{source}[{axis.index}] AS {name}"

/-- The name of an output. -/
def name : Output → String
  | column name => name
  | coordinate _ _ name => name

/-- The value of an output. A coordinate of null is null. -/
def eval (row : Row) : Output → Value
  | column name => row.get name
  | coordinate source axis _ =>
    match row.get source, axis with
    | .point x _, .x => .double x
    | .point _ y, .y => .double y
    | _, _ => .null

end Output

/-! ## Statements -/

/-- Which rows a statement is about. -/
inductive Condition
  | equals (column : String) (param : Nat)
  | isNull (column : String)
  | notNull (column : String)
  deriving DecidableEq, Repr

/-- How a condition is written. -/
def Condition.text : Condition → String
  | equals column n => s!"{column} = {Expr.paramText n}"
  | isNull column => s!"{column} IS NULL"
  | notNull column => s!"{column} IS NOT NULL"

/-- A statement. -/
inductive Statement
  /-- Adds a row. With `unlessTaken` nothing is added if that column's value is taken. A wide
  statement has space inside its brackets. -/
  | insert (table : String) (columns : List (String × Expr)) (unlessTaken : Option String)
      (wide : Bool)
  /-- Changes columns of rows. -/
  | update (table : String) (changes : List (String × Expr)) (conditions : List Condition)
  /-- Reads from rows; with `latestBy` only from the one with the greatest value of a column. -/
  | select (outputs : List Output) (table : String) (conditions : List Condition)
      (latestBy : Option String)
  /-- Any other statements, as they are written. -/
  | script (text : String)
  deriving DecidableEq, Repr

namespace Statement

/-- Texts with a comma between them. -/
def commas (texts : List String) : String := String.intercalate ", " texts

/-- Texts in brackets. -/
def brackets (wide : Bool) (texts : List String) : String :=
  if wide then "( " ++ commas texts ++ " )" else "(" ++ commas texts ++ ")"

/-- How conditions are written. -/
def whereText (conditions : List Condition) : String :=
  String.intercalate " AND " (conditions.map Condition.text)

/-- How a statement is written. -/
def text : Statement → String
  | insert table columns unlessTaken wide =>
    s!"INSERT INTO {table} {brackets wide (columns.map Prod.fst)}" ++
      s!" VALUES {brackets wide (columns.map fun column => column.2.text)}" ++
      unlessTaken.elim "" fun column => s!" ON CONFLICT ({column}) DO NOTHING"
  | update table changes conditions =>
    let written := changes.map fun (column, value) => s!"{column} = {value.text}"
    s!"UPDATE {table} SET {commas written} WHERE {whereText conditions}"
  | select outputs table conditions latestBy =>
    s!"SELECT {commas (outputs.map Output.text)} FROM {table} WHERE {whereText conditions}" ++
      latestBy.elim "" fun column => s!" ORDER BY {column} DESC LIMIT 1"
  | script text => text

/-- The row that an insertion adds. -/
def newRow (columns : List (String × Expr)) (params : List Value) : Row :=
  columns.map fun (column, value) => (column, value.eval params)

/-- A row after its columns have been changed. -/
def changedRow (changes : List (String × Expr)) (params : List Value) (row : Row) : Row :=
  changes.foldl (fun row (column, value) => row.set column (value.eval params)) row

/-- What is read from a row. -/
def readRow (outputs : List Output) (row : Row) : Row :=
  outputs.map fun output => (output.name, output.eval row)

end Statement

/-- A statement with its parameters. -/
structure Command where
  statement : Statement
  params : List Value
  deriving DecidableEq, Repr

/-- What the database answers to a command. -/
inductive Reply
  | rows (rows : List Row)
  | affected (count : Nat)
  | refused (code : String)
  /-- The connection is lost. -/
  | lost
  deriving DecidableEq, Repr

end TripArchive.Database
