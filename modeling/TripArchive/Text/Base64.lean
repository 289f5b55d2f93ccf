import TripArchive.Bytes

/-!
# Base64

Two alphabets of sixty-four digits. The standard one is written and read with padding, and reading
gives back what was written (`decode_encode`) and refuses bits that belong to no byte. The alphabet
for identifiers in addresses is written without padding.
-/

namespace TripArchive.Base64

/-- The digit of a number below sixty-four, given the last two digits of the alphabet. -/
def digit (last : Char × Char) (n : Nat) : Char :=
  if n < 26 then Char.ofNat (65 + n)
  else if n < 52 then Char.ofNat (71 + n)
  else if n < 62 then Char.ofNat (n - 4)
  else if n = 62 then last.1
  else last.2

/-- The last two digits of the standard alphabet. -/
def standard : Char × Char := ('+', '/')

/-- The last two digits of the alphabet that is safe in addresses. -/
def addressSafe : Char × Char := ('-', '_')

/-- The value of a digit of the standard alphabet. -/
def value? (c : Char) : Option Nat :=
  if 'A' ≤ c ∧ c ≤ 'Z' then some (c.toNat - 65)
  else if 'a' ≤ c ∧ c ≤ 'z' then some (c.toNat - 71)
  else if '0' ≤ c ∧ c ≤ '9' then some (c.toNat + 4)
  else if c = '+' then some 62
  else if c = '/' then some 63
  else none

/-- Writes three bytes as four digits; `pad` completes a last group of one or two bytes. -/
def encodeWith (last : Char × Char) (pad : List Char) : Bytes → List Char
  | [] => []
  | [a] =>
    digit last (a.toNat / 4) :: digit last (a.toNat % 4 * 16) :: (pad ++ pad)
  | [a, b] =>
    digit last (a.toNat / 4) :: digit last (a.toNat % 4 * 16 + b.toNat / 16) ::
      digit last (b.toNat % 16 * 4) :: pad
  | a :: b :: c :: rest =>
    digit last (a.toNat / 4) :: digit last (a.toNat % 4 * 16 + b.toNat / 16) ::
      digit last (b.toNat % 16 * 4 + c.toNat / 64) :: digit last (c.toNat % 64) ::
      encodeWith last pad rest

/-- The standard text of a byte string, with padding. -/
def encode (bytes : Bytes) : String := String.ofList (encodeWith standard ['='] bytes)

/-- The text of a byte string that is safe in addresses, without padding. -/
def encodeAddressSafe (bytes : Bytes) : String := String.ofList (encodeWith addressSafe [] bytes)

/-- Reads groups of four digits. The last group may be padded, and then the bits that belong to no
byte have to be zero. -/
def decodeChars : List Char → Option Bytes
  | [] => some []
  | [p, q, '=', '='] => do
    let x ← value? p
    let y ← value? q
    if y % 16 = 0 then some [UInt8.ofNat (x * 4 + y / 16)] else none
  | [p, q, r, '='] => do
    let x ← value? p
    let y ← value? q
    let z ← value? r
    if z % 4 = 0 then
      some [UInt8.ofNat (x * 4 + y / 16), UInt8.ofNat (y % 16 * 16 + z / 4)]
    else none
  | p :: q :: r :: s :: rest => do
    let x ← value? p
    let y ← value? q
    let z ← value? r
    let w ← value? s
    let bytes ← decodeChars rest
    some (UInt8.ofNat (x * 4 + y / 16) :: UInt8.ofNat (y % 16 * 16 + z / 4) ::
      UInt8.ofNat (z % 4 * 64 + w) :: bytes)
  | _ => none

/-- Reads a standard text; padding is required, and nothing else may stand in the text. -/
def decode (text : String) : Option Bytes := decodeChars text.toList

/-- A digit is read as the number it was written for. -/
theorem value?_digit {n : Nat} (h : n < 64) : value? (digit standard n) = some n := by
  have hall : ∀ m : Fin 64, value? (digit standard m) = some m.val := by decide
  exact hall ⟨n, h⟩

/-- A digit is never mistaken for padding. -/
theorem digit_ne_pad {n : Nat} (h : n < 64) : digit standard n ≠ '=' := by
  have hall : ∀ m : Fin 64, digit standard m ≠ '=' := by decide
  exact hall ⟨n, h⟩

theorem decodeChars_encodeWith (bytes : Bytes) :
    decodeChars (encodeWith standard ['='] bytes) = some bytes := by
  fun_induction encodeWith standard ['='] bytes with
  | case1 => rfl
  | case2 a =>
    have ha := a.toNat_lt
    have h1 := value?_digit (show a.toNat / 4 < 64 by omega)
    have h2 := value?_digit (show a.toNat % 4 * 16 < 64 by omega)
    have hbyte : UInt8.ofNat (a.toNat / 4 * 4 + a.toNat % 4 * 16 / 16) = a := by
      rw [show a.toNat / 4 * 4 + a.toNat % 4 * 16 / 16 = a.toNat by omega]
      exact UInt8.ofNat_toNat
    have hlow : a.toNat % 4 * 16 % 16 = 0 := by omega
    simp only [List.cons_append, List.nil_append, decodeChars, h1, h2, hbyte, hlow,
      Option.bind_eq_bind, Option.bind_some, if_pos]
  | case3 a b =>
    have ha := a.toNat_lt
    have hb := b.toNat_lt
    have h1 := value?_digit (show a.toNat / 4 < 64 by omega)
    have h2 := value?_digit (show a.toNat % 4 * 16 + b.toNat / 16 < 64 by omega)
    have h3 := value?_digit (show b.toNat % 16 * 4 < 64 by omega)
    have hne := digit_ne_pad (show b.toNat % 16 * 4 < 64 by omega)
    have hbyte1 : UInt8.ofNat
        (a.toNat / 4 * 4 + (a.toNat % 4 * 16 + b.toNat / 16) / 16) = a := by
      rw [show a.toNat / 4 * 4 + (a.toNat % 4 * 16 + b.toNat / 16) / 16 = a.toNat by omega]
      exact UInt8.ofNat_toNat
    have hbyte2 : UInt8.ofNat
        ((a.toNat % 4 * 16 + b.toNat / 16) % 16 * 16 + b.toNat % 16 * 4 / 4) = b := by
      rw [show (a.toNat % 4 * 16 + b.toNat / 16) % 16 * 16 + b.toNat % 16 * 4 / 4 = b.toNat
        by omega]
      exact UInt8.ofNat_toNat
    have hlow : b.toNat % 16 * 4 % 4 = 0 := by omega
    rw [decodeChars]
    · simp only [h1, h2, h3, hbyte1, hbyte2, hlow, Option.bind_eq_bind, Option.bind_some, if_pos]
    · exact hne
  | case4 a b c rest ih =>
    have ha := a.toNat_lt
    have hb := b.toNat_lt
    have hc := c.toNat_lt
    have h1 := value?_digit (show a.toNat / 4 < 64 by omega)
    have h2 := value?_digit (show a.toNat % 4 * 16 + b.toNat / 16 < 64 by omega)
    have h3 := value?_digit (show b.toNat % 16 * 4 + c.toNat / 64 < 64 by omega)
    have h4 := value?_digit (show c.toNat % 64 < 64 by omega)
    have hne := digit_ne_pad (show c.toNat % 64 < 64 by omega)
    have hbyte1 : UInt8.ofNat
        (a.toNat / 4 * 4 + (a.toNat % 4 * 16 + b.toNat / 16) / 16) = a := by
      rw [show a.toNat / 4 * 4 + (a.toNat % 4 * 16 + b.toNat / 16) / 16 = a.toNat by omega]
      exact UInt8.ofNat_toNat
    have hbyte2 : UInt8.ofNat ((a.toNat % 4 * 16 + b.toNat / 16) % 16 * 16 +
        (b.toNat % 16 * 4 + c.toNat / 64) / 4) = b := by
      rw [show (a.toNat % 4 * 16 + b.toNat / 16) % 16 * 16 +
        (b.toNat % 16 * 4 + c.toNat / 64) / 4 = b.toNat by omega]
      exact UInt8.ofNat_toNat
    have hbyte3 : UInt8.ofNat
        ((b.toNat % 16 * 4 + c.toNat / 64) % 4 * 64 + c.toNat % 64) = c := by
      rw [show (b.toNat % 16 * 4 + c.toNat / 64) % 4 * 64 + c.toNat % 64 = c.toNat by omega]
      exact UInt8.ofNat_toNat
    rw [decodeChars]
    · simp only [h1, h2, h3, h4, hbyte1, hbyte2, hbyte3, ih, Option.bind_eq_bind,
        Option.bind_some]
    · intro _ hpad
      exact absurd hpad hne
    · intro hpad
      exact absurd hpad hne

/-- A text has four digits for each three bytes that are begun. -/
theorem length_encodeWith_padded (last : Char × Char) (bytes : Bytes) :
    (encodeWith last ['='] bytes).length = 4 * ((bytes.length + 2) / 3) := by
  fun_induction encodeWith last ['='] bytes with
  | case1 => rfl
  | case2 a => simp
  | case3 a b => simp
  | case4 a b c rest ih =>
    simp only [List.length_cons, ih]
    omega

/-- Every byte string is read back from its standard text. -/
theorem decode_encode (bytes : Bytes) : decode (encode bytes) = some bytes := by
  simp [decode, encode, decodeChars_encodeWith]

end TripArchive.Base64
