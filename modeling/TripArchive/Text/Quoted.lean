import TripArchive.Text.Printable

/-!
# Quoted texts

The form in which a message quotes a text: between quotation marks, with escapes for what would
not show.
-/

namespace TripArchive.Quoted

/-- Lower-case hexadecimal digits of a number. -/
def hexDigits (n : Nat) : List Char := Nat.toDigits 16 n

/-- The form of one character. -/
def encodeChar (c : Char) : List Char :=
  if c = '"' then ['\\', '"']
  else if c = '\\' then ['\\', '\\']
  else if c = '\t' then ['\\', 't']
  else if c = '\n' then ['\\', 'n']
  else if c = '\r' then ['\\', 'r']
  else if c = '\x00' then ['\\', '0']
  else if Printable.isPrintable c then [c]
  else ['\\', 'u', '\x7b'] ++ hexDigits c.toNat ++ ['\x7d']

/-- A text between quotation marks. -/
def encode (text : String) : String :=
  String.ofList ('"' :: (text.toList.flatMap encodeChar ++ ['"']))

end TripArchive.Quoted
