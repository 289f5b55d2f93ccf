import TripArchive.Number.Double
import TripArchive.Text.Utf8

/-!
# JSON values

A value as a program builds or keeps it, and its compact text. Integers and doubles are kept
apart: a double is always written with a point or an exponent.
-/

namespace TripArchive

/-- A number: an integer of at most sixty-four bits or a double. -/
inductive Json.Number
  | int (n : Int)
  | double (x : Float)
  deriving DecidableEq, Repr

/-- A JSON value; the fields of an object are in the order in which they are written. -/
inductive Json
  | null
  | bool (b : Bool)
  | number (n : Json.Number)
  | string (s : String)
  | array (items : List Json)
  | object (fields : List (String × Json))
  deriving Repr, Inhabited

namespace Json

/-- An integer value. -/
def ofInt (n : Int) : Json := .number (.int n)

/-- The text or null. -/
def ofOption {α : Type} (write : α → Json) : Option α → Json
  | none => .null
  | some a => write a

/-- Adds a field in the order of the keys' bytes, in place of an earlier one of the same key. -/
def putSorted (key : String) (value : Json) : List (String × Json) → List (String × Json)
  | [] => [(key, value)]
  | (k, v) :: fields =>
    if key = k then (key, value) :: fields
    else if key < k then (key, value) :: (k, v) :: fields
    else (k, v) :: putSorted key value fields

/-- An object with its fields in the order of their keys; the last of repeated keys counts. -/
def sorted (fields : List (String × Json)) : Json :=
  .object (fields.foldl (fun kept (key, value) => putSorted key value kept) [])

/-- How a double is written: plainly from 1e-5 up to below 1e16 and with an exponent and its sign
elsewhere. -/
def writeDouble (x : Float) : List Char :=
  if x.isNaN || x.isInf then ['n', 'u', 'l', 'l']
  else
    let sign := if Double.isNegative x then ['-'] else []
    if x == 0.0 then sign ++ ['0', '.', '0']
    else
      let d := Double.shortest (if Double.isNegative x then -x else x)
      let digits := Nat.toDigits 10 d.digits
      let point := digits.length + d.exponent
      if -5 < point ∧ point ≤ 16 then
        let (whole, fraction) := Double.plain digits point
        sign ++ whole ++ '.' :: (if fraction.isEmpty then ['0'] else fraction)
      else
        let exponent := point - 1
        let fraction := if digits.length = 1 then [] else '.' :: digits.tail
        sign ++ digits.take 1 ++ fraction ++ 'e' :: (if exponent < 0 then '-' else '+') ::
          Nat.toDigits 10 exponent.natAbs

/-- How a number is written. -/
def Number.write : Number → List Char
  | .int n => (toString n).toList
  | .double x => writeDouble x

/-- The form of one character inside a string. -/
def escapeChar (c : Char) : List Char :=
  if c = '"' then ['\\', '"']
  else if c = '\\' then ['\\', '\\']
  else if c = '\x08' then ['\\', 'b']
  else if c = '\x0c' then ['\\', 'f']
  else if c = '\n' then ['\\', 'n']
  else if c = '\r' then ['\\', 'r']
  else if c = '\t' then ['\\', 't']
  else if c.toNat < 32 then
    ['\\', 'u', '0', '0', Bytes.hexDigit (c.toNat / 16), Bytes.hexDigit (c.toNat % 16)]
  else [c]

/-- A string between its quotation marks. -/
def writeString (s : String) : List Char := '"' :: (s.toList.flatMap escapeChar ++ ['"'])

mutual

/-- The compact text of a value. -/
def write : Json → List Char
  | .null => ['n', 'u', 'l', 'l']
  | .bool true => ['t', 'r', 'u', 'e']
  | .bool false => ['f', 'a', 'l', 's', 'e']
  | .number n => n.write
  | .string s => writeString s
  | .array [] => ['[', ']']
  | .array (item :: items) => '[' :: (write item ++ writeItems items)
  | .object [] => ['\x7b', '\x7d']
  | .object ((key, value) :: fields) =>
    '\x7b' :: (writeString key ++ ':' :: (write value ++ writeFields fields))

/-- The items of an array after the first. -/
def writeItems : List Json → List Char
  | [] => [']']
  | item :: items => ',' :: (write item ++ writeItems items)

/-- The fields of an object after the first. -/
def writeFields : List (String × Json) → List Char
  | [] => ['\x7d']
  | (key, value) :: fields => ',' :: (writeString key ++ ':' :: (write value ++ writeFields fields))

end

/-- The compact text of a value. -/
def text (value : Json) : String := String.ofList value.write

mutual

/-- How many arrays and objects stand within each other at the deepest place of a value. -/
def depth : Json → Nat
  | .null => 0
  | .bool _ => 0
  | .number _ => 0
  | .string _ => 0
  | .array items => depthOfItems items + 1
  | .object fields => depthOfFields fields + 1

/-- The depth of the deepest item. -/
def depthOfItems : List Json → Nat
  | [] => 0
  | item :: items => max (depth item) (depthOfItems items)

/-- The depth of the deepest field. -/
def depthOfFields : List (String × Json) → Nat
  | [] => 0
  | (_, value) :: fields => max (depth value) (depthOfFields fields)

end

end Json

end TripArchive
