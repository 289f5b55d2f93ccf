import TripArchive.Json.Basic

/-!
# JSON texts

A text as it was sent, before anything is asked of it. A number that is out of range and a string
that is no Unicode text stand as `none`: they matter only to a reader that looks at them. Repeated
keys and any depth of nesting are kept.
-/

namespace TripArchive.Json

/-- What a JSON text says. -/
inductive Raw
  | null
  | bool (b : Bool)
  | number (n : Option Number)
  | string (s : Option String)
  | array (items : List Raw)
  | object (fields : List (Option String × Raw))
  deriving Repr, Inhabited

namespace Raw

/-- Whether a byte is JSON white space. -/
def isSpace (b : UInt8) : Bool := b == 0x20 || b == 0x0a || b == 0x0d || b == 0x09

/-- The bytes after leading white space. -/
def skipSpace (bytes : Bytes) : Bytes := bytes.dropWhile isSpace

/-- Whether a byte is a decimal digit. -/
def isDigit (b : UInt8) : Bool := 0x30 ≤ b && b ≤ 0x39

/-- The number that some digits spell. -/
def digitsValue (digits : Bytes) : Nat :=
  digits.foldl (fun n b => 10 * n + (b.toNat - 48)) 0

/-- The leading digits, and the bytes after them; at least one digit is required. -/
def digits? (bytes : Bytes) : Option (Bytes × Bytes) :=
  if (bytes.takeWhile isDigit).isEmpty then none
  else some (bytes.takeWhile isDigit, bytes.dropWhile isDigit)

/-- The digits before the point: a lone zero or digits that begin with another one. -/
def whole? (bytes : Bytes) : Option (Bytes × Bytes) :=
  match bytes with
  | 0x30 :: rest => if (rest.head?.map isDigit).getD false then none else some ([0x30], rest)
  | _ => digits? bytes

/-- The digits after the point, if there is one. -/
def fraction? (bytes : Bytes) : Option (Option Bytes × Bytes) :=
  match bytes with
  | 0x2e :: rest => (digits? rest).map fun (digits, rest) => (some digits, rest)
  | _ => some (none, bytes)

/-- The exponent, if there is one. -/
def exponent? (bytes : Bytes) : Option (Option Int × Bytes) :=
  match bytes with
  | b :: rest =>
    if b = 0x65 ∨ b = 0x45 then
      let (negative, rest) :=
        match rest with
        | 0x2b :: rest => (false, rest)
        | 0x2d :: rest => (true, rest)
        | _ => (false, rest)
      (digits? rest).map fun (digits, rest) =>
        let n : Int := digitsValue digits
        (some (if negative then -n else n), rest)
    else some (none, bytes)
  | [] => some (none, [])

/-- The number of a sign, digits and an exponent. Without point and exponent it is an integer if it
fits sixty-four bits; minus zero is a double. -/
def numberOf (negative : Bool) (whole : Bytes) (fraction : Option Bytes) (exponent : Option Int) :
    Option Number :=
  let places := fraction.getD []
  let mantissa := digitsValue (whole ++ places)
  if fraction.isNone ∧ exponent.isNone ∧ ¬ (negative ∧ mantissa = 0) ∧
      mantissa < span 64 ∧ (negative → mantissa ≤ span 63) then
    some (.int (if negative then -(mantissa : Int) else mantissa))
  else
    (Double.ofDecimal? negative mantissa (exponent.getD 0 - places.length)).map .double

/-- Reads a number. -/
def number? (bytes : Bytes) : Option (Raw × Bytes) := do
  let (negative, bytes) :=
    match bytes with
    | 0x2d :: rest => (true, rest)
    | _ => (false, bytes)
  let (whole, bytes) ← whole? bytes
  let (fraction, bytes) ← fraction? bytes
  let (exponent, bytes) ← exponent? bytes
  some (.number (numberOf negative whole fraction exponent), bytes)

/-- The value of a hexadecimal digit. -/
def hexValue? (b : UInt8) : Option Nat := Bytes.hexValue? (Char.ofNat b.toNat)

/-- Whether a byte may follow a backslash on its own. -/
def isShortEscape (b : UInt8) : Bool :=
  b == 0x22 || b == 0x5c || b == 0x2f || b == 0x62 || b == 0x66 || b == 0x6e || b == 0x72 ||
    b == 0x74

/-- The bytes of a string up to its closing quotation mark, and the bytes after that. Controls and
unknown escapes are refused. -/
def content? : Bytes → Option (Bytes × Bytes)
  | [] => none
  | 0x22 :: rest => some ([], rest)
  | 0x5c :: 0x75 :: h₁ :: h₂ :: h₃ :: h₄ :: rest =>
    if [h₁, h₂, h₃, h₄].all fun h => (hexValue? h).isSome then
      (content? rest).map fun (content, rest) =>
        (0x5c :: 0x75 :: h₁ :: h₂ :: h₃ :: h₄ :: content, rest)
    else none
  | 0x5c :: b :: rest =>
    if isShortEscape b then
      (content? rest).map fun (content, rest) => (0x5c :: b :: content, rest)
    else none
  | b :: rest =>
    if b < 0x20 ∨ b = 0x5c then none
    else (content? rest).map fun (content, rest) => (b :: content, rest)

/-- The code unit of four hexadecimal digits. -/
def unit (h₁ h₂ h₃ h₄ : Char) : Nat :=
  [h₁, h₂, h₃, h₄].foldl (fun n c => 16 * n + (Bytes.hexValue? c).getD 0) 0

/-- The character of a short escape. -/
def shortEscape (c : Char) : Char :=
  match c with
  | 'b' => '\x08'
  | 'f' => '\x0c'
  | 'n' => '\n'
  | 'r' => '\r'
  | 't' => '\t'
  | c => c

/-- Replaces escapes by their characters. The two halves of a surrogate pair have to follow each
other. -/
def unescape? : List Char → Option (List Char)
  | [] => some []
  | '\\' :: 'u' :: a :: b :: c :: d :: '\\' :: 'u' :: e :: f :: g :: h :: rest =>
    let first := unit a b c d
    let second := unit e f g h
    if 0xd800 ≤ first ∧ first < 0xdc00 then
      if 0xdc00 ≤ second ∧ second < 0xe000 then
        (unescape? rest).map
          (Char.ofNat (0x10000 + (first - 0xd800) * 0x400 + (second - 0xdc00)) :: ·)
      else none
    else if 0xdc00 ≤ first ∧ first < 0xe000 then none
    else
      (unescape? ('\\' :: 'u' :: e :: f :: g :: h :: rest)).map (Char.ofNat first :: ·)
  | '\\' :: 'u' :: a :: b :: c :: d :: rest =>
    let only := unit a b c d
    if 0xd800 ≤ only ∧ only < 0xe000 then none
    else (unescape? rest).map (Char.ofNat only :: ·)
  | '\\' :: c :: rest => (unescape? rest).map (shortEscape c :: ·)
  | c :: rest => (unescape? rest).map (c :: ·)

/-- The text of the content of a string, if it is one. -/
def contentText? (content : Bytes) : Option String :=
  match Utf8.decode content with
  | .error _ => none
  | .ok text => (unescape? text.toList).map String.ofList

/-- Reads a string after its opening quotation mark. -/
def string? (bytes : Bytes) : Option (Option String × Bytes) :=
  (content? bytes).map fun (content, rest) => (contentText? content, rest)

/-- The bytes after a fixed word. -/
def word? (word : Bytes) (bytes : Bytes) : Option Bytes :=
  if word.isPrefixOf bytes then some (bytes.drop word.length) else none

/-- The bytes after white space and one given byte. -/
def byte? (b : UInt8) (bytes : Bytes) : Option Bytes :=
  match skipSpace bytes with
  | c :: rest => if c = b then some rest else none
  | [] => none

mutual

/-- Reads a value after white space. Every step of the recursion is over at least one byte, so
`fuel` need not exceed the number of bytes. -/
def value? : (fuel : Nat) → Bytes → Option (Raw × Bytes)
  | 0, _ => none
  | fuel + 1, bytes =>
    match skipSpace bytes with
    | [] => none
    | 0x6e :: rest => (word? [0x75, 0x6c, 0x6c] rest).map (Raw.null, ·)
    | 0x74 :: rest => (word? [0x72, 0x75, 0x65] rest).map (Raw.bool true, ·)
    | 0x66 :: rest => (word? [0x61, 0x6c, 0x73, 0x65] rest).map (Raw.bool false, ·)
    | 0x22 :: rest => (string? rest).map fun (s, rest) => (.string s, rest)
    | 0x5b :: rest =>
      match byte? 0x5d rest with
      | some rest => some (.array [], rest)
      | none => do
        let (item, rest) ← value? fuel rest
        let (items, rest) ← items? fuel rest
        some (.array (item :: items), rest)
    | 0x7b :: rest =>
      match byte? 0x7d rest with
      | some rest => some (.object [], rest)
      | none => do
        let (field, rest) ← field? fuel rest
        let (fields, rest) ← fields? fuel rest
        some (.object (field :: fields), rest)
    | b :: rest => number? (b :: rest)

/-- Reads the items of an array after the first. -/
def items? : (fuel : Nat) → Bytes → Option (List Raw × Bytes)
  | 0, _ => none
  | fuel + 1, bytes =>
    match byte? 0x5d bytes with
    | some rest => some ([], rest)
    | none => do
      let rest ← byte? 0x2c bytes
      let (item, rest) ← value? fuel rest
      let (items, rest) ← items? fuel rest
      some (item :: items, rest)

/-- Reads one field of an object: its key, a colon and its value. -/
def field? : (fuel : Nat) → Bytes → Option ((Option String × Raw) × Bytes)
  | 0, _ => none
  | fuel + 1, bytes => do
    let rest ← byte? 0x22 bytes
    let (key, rest) ← string? rest
    let rest ← byte? 0x3a rest
    let (value, rest) ← value? fuel rest
    some ((key, value), rest)

/-- Reads the fields of an object after the first. -/
def fields? : (fuel : Nat) → Bytes → Option (List (Option String × Raw) × Bytes)
  | 0, _ => none
  | fuel + 1, bytes =>
    match byte? 0x7d bytes with
    | some rest => some ([], rest)
    | none => do
      let rest ← byte? 0x2c bytes
      let (field, rest) ← field? fuel rest
      let (fields, rest) ← fields? fuel rest
      some (field :: fields, rest)

end

/-- Reads a text that holds one value and nothing else but white space. -/
def parse? (bytes : Bytes) : Option Raw :=
  match value? (bytes.length + 1) bytes with
  | some (value, rest) => if (skipSpace rest).isEmpty then some value else none
  | none => none

mutual

/-- The value of a text, nested at most `depth` deep. Numbers have to be in range and strings have
to be texts; the last of repeated keys counts, and the fields are ordered by their keys. -/
def value (depth : Nat) : Raw → Option Json
  | .null => some .null
  | .bool b => some (.bool b)
  | .number n => n.map .number
  | .string s => s.map .string
  | .array items =>
    if depth = 0 then none else (values (depth - 1) items).map .array
  | .object fields =>
    if depth = 0 then none else (fieldValues (depth - 1) fields).map Json.sorted

/-- The values of some texts. -/
def values (depth : Nat) : List Raw → Option (List Json)
  | [] => some []
  | item :: items => do
    let item ← value depth item
    let items ← values depth items
    some (item :: items)

/-- The values of some fields. -/
def fieldValues (depth : Nat) : List (Option String × Raw) → Option (List (String × Json))
  | [] => some []
  | (key, field) :: fields => do
    let key ← key
    let field ← value depth field
    let fields ← fieldValues depth fields
    some ((key, field) :: fields)

end

end Raw

/-- The deepest nesting of a value that is read. -/
def maxDepth : Nat := 127

/-- Reads a text as a value. -/
def parse? (bytes : Bytes) : Option Json := (Raw.parse? bytes).bind (Raw.value maxDepth)

mutual

/-- A value as a text says it. -/
def toRaw : Json → Raw
  | .null => .null
  | .bool b => .bool b
  | .number n => .number (some n)
  | .string s => .string (some s)
  | .array items => .array (toRaws items)
  | .object fields => .object (toRawFields fields)

/-- Values as texts say them. -/
def toRaws : List Json → List Raw
  | [] => []
  | item :: items => toRaw item :: toRaws items

/-- Fields as texts say them. -/
def toRawFields : List (String × Json) → List (Option String × Raw)
  | [] => []
  | (key, value) :: fields => (some key, toRaw value) :: toRawFields fields

end

end TripArchive.Json
