/-!
# Byte strings

A byte string is a list of bytes, so that every reader of a binary format is an ordinary
recursion on a list. This module fixes the two orders in which a number is written as bytes and
the hexadecimal text of a byte string.
-/

namespace TripArchive

/-- A string of bytes. -/
abbrev Bytes := List UInt8

/-- A string of exactly `n` bytes. -/
abbrev Octets (n : Nat) := { bytes : Bytes // bytes.length = n }

/-- The `n` bytes of a string, if it has exactly that many. -/
def Octets.ofBytes? (n : Nat) (bytes : Bytes) : Option (Octets n) :=
  if h : bytes.length = n then some ⟨bytes, h⟩ else none

namespace Bytes

/-- The `width` lowest bytes of a number, the lowest byte first. -/
def ofNatLE : (width : Nat) → Nat → Bytes
  | 0, _ => []
  | width + 1, n => UInt8.ofNat n :: ofNatLE width (n / 256)

/-- The number whose bytes are given with the lowest byte first. -/
def toNatLE : Bytes → Nat
  | [] => 0
  | b :: rest => b.toNat + 256 * toNatLE rest

/-- The `width` lowest bytes of a number, the highest of them first. -/
def ofNatBE (width n : Nat) : Bytes := (ofNatLE width n).reverse

/-- The number whose bytes are given with the highest byte first. -/
def toNatBE (bytes : Bytes) : Nat := bytes.foldl (fun n b => 256 * n + b.toNat) 0

@[simp] theorem length_ofNatLE (width n : Nat) : (ofNatLE width n).length = width := by
  induction width generalizing n with
  | zero => rfl
  | succ width ih => simp [ofNatLE, ih]

@[simp] theorem length_ofNatBE (width n : Nat) : (ofNatBE width n).length = width := by
  simp [ofNatBE]

/-- Reading the lowest bytes of a number gives its residue. -/
theorem toNatLE_ofNatLE (width n : Nat) : toNatLE (ofNatLE width n) = n % Nat.pow 256 width := by
  induction width generalizing n with
  | zero => simp [ofNatLE, toNatLE, Nat.mod_one]
  | succ width ih =>
    have hbyte : (UInt8.ofNat n).toNat = n % 256 := by simp
    rw [ofNatLE, toNatLE, ih, hbyte]
    show _ = n % (Nat.pow 256 width * 256)
    rw [Nat.mul_comm (Nat.pow 256 width) 256, Nat.mod_mul]

/-- A number that fits its width is read back. -/
theorem toNatLE_ofNatLE_of_lt {width n : Nat} (h : n < Nat.pow 256 width) :
    toNatLE (ofNatLE width n) = n := by
  rw [toNatLE_ofNatLE, Nat.mod_eq_of_lt h]

/-- Bytes are the digits of the number they spell. -/
theorem ofNatLE_toNatLE (bytes : Bytes) : ofNatLE bytes.length (toNatLE bytes) = bytes := by
  induction bytes with
  | nil => rfl
  | cons b rest ih =>
    have hlt : b.toNat < 256 := b.toNat_lt
    have hlow : UInt8.ofNat (b.toNat + 256 * toNatLE rest) = b := by
      apply UInt8.toNat_inj.mp
      simp only [UInt8.toNat_ofNat']
      omega
    have hhigh : (b.toNat + 256 * toNatLE rest) / 256 = toNatLE rest := by omega
    simp only [List.length_cons, toNatLE, ofNatLE, hlow, hhigh, ih]

/-- Spelled numbers are bounded by the number of their bytes. -/
theorem toNatLE_lt (bytes : Bytes) : toNatLE bytes < Nat.pow 256 bytes.length := by
  induction bytes with
  | nil => simp [toNatLE]
  | cons b rest ih =>
    have hlt : b.toNat < 256 := b.toNat_lt
    show b.toNat + 256 * toNatLE rest < Nat.pow 256 rest.length * 256
    omega

/-- The first `count` pieces of `size` bytes each; the last may be shorter. -/
def pieces (size : Nat) : (count : Nat) → Bytes → List Bytes
  | 0, _ => []
  | count + 1, bytes => bytes.take size :: pieces size count (bytes.drop size)

/-- The hexadecimal digit of a number below sixteen, in lower case. -/
def hexDigit (n : Nat) : Char :=
  if n < 10 then Char.ofNat (48 + n) else Char.ofNat (87 + n)

/-- The value of a hexadecimal digit in either case. -/
def hexValue? (c : Char) : Option Nat :=
  if '0' ≤ c ∧ c ≤ '9' then some (c.toNat - 48)
  else if 'a' ≤ c ∧ c ≤ 'f' then some (c.toNat - 87)
  else if 'A' ≤ c ∧ c ≤ 'F' then some (c.toNat - 55)
  else none

/-- Two lower-case hexadecimal digits for each byte. -/
def toHex (bytes : Bytes) : String :=
  String.ofList (bytes.flatMap fun b => [hexDigit (b.toNat / 16), hexDigit (b.toNat % 16)])

/-- Reads pairs of hexadecimal digits. -/
def ofHexDigits? : List Char → Option Bytes
  | [] => some []
  | high :: low :: rest => do
    let h ← hexValue? high
    let l ← hexValue? low
    let bytes ← ofHexDigits? rest
    some (UInt8.ofNat (16 * h + l) :: bytes)
  | [_] => none

/-- Reads a hexadecimal text; an odd number of digits or any other character is refused. -/
def ofHex? (text : String) : Option Bytes := ofHexDigits? text.toList

end Bytes

end TripArchive
