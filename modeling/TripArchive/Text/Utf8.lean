import TripArchive.Bytes

/-!
# UTF-8

Reading a byte string as text. `decode` accepts exactly the byte strings that `encode` writes and
otherwise says where the text breaks; `decodeLossy` puts U+FFFD in place of each broken piece.
-/

namespace TripArchive.Utf8

/-- The bytes of a text. -/
def encode (text : String) : Bytes := text.toByteArray.data.toList

/-- The number of bytes of a text is the length of its encoding. -/
theorem length_encode (text : String) : (encode text).length = text.utf8ByteSize := by
  simp [encode]

/-- Where and how a byte string stops being UTF-8; `start` counts the good bytes before. -/
inductive Fault
  /-- The bytes end inside a sequence that is good so far. -/
  | incomplete (start : Nat)
  /-- `length` bytes that begin a sequence are followed by a byte that cannot continue it. -/
  | invalid (length start : Nat)
  deriving DecidableEq, Repr

/-- The bytes allowed after a first byte, each as a range: none for ASCII, and `none` at all for
a byte that starts no sequence. The first range excludes overlong forms, surrogates and code
points above U+10FFFF. -/
def continuation (first : UInt8) : Option (List (UInt8 × UInt8)) :=
  if first < 0x80 then some []
  else if 0xc2 ≤ first ∧ first ≤ 0xdf then some [(0x80, 0xbf)]
  else if first = 0xe0 then some [(0xa0, 0xbf), (0x80, 0xbf)]
  else if first = 0xed then some [(0x80, 0x9f), (0x80, 0xbf)]
  else if 0xe1 ≤ first ∧ first ≤ 0xef then some [(0x80, 0xbf), (0x80, 0xbf)]
  else if first = 0xf0 then some [(0x90, 0xbf), (0x80, 0xbf), (0x80, 0xbf)]
  else if 0xf1 ≤ first ∧ first ≤ 0xf3 then some [(0x80, 0xbf), (0x80, 0xbf), (0x80, 0xbf)]
  else if first = 0xf4 then some [(0x80, 0x8f), (0x80, 0xbf), (0x80, 0xbf)]
  else none

/-- How far the bytes after a first byte go along with what it announces. -/
inductive Progress
  /-- All announced bytes are there. -/
  | complete
  /-- The bytes end after `matched` good ones. -/
  | ended (matched : Nat)
  /-- A bad byte follows `matched` good ones. -/
  | stopped (matched : Nat)

/-- Compares the bytes after a first byte with the ranges it announces. -/
def follow : List (UInt8 × UInt8) → Bytes → Progress
  | [], _ => .complete
  | _ :: _, [] => .ended 0
  | (low, high) :: ranges, b :: rest =>
    if low ≤ b ∧ b ≤ high then
      match follow ranges rest with
      | .complete => .complete
      | .ended matched => .ended (matched + 1)
      | .stopped matched => .stopped (matched + 1)
    else .stopped 0

/-- The first fault of a byte string, counting positions from `start`. -/
def faultFrom (start : Nat) : Bytes → Option Fault
  | [] => none
  | first :: rest =>
    match continuation first with
    | none => some (.invalid 1 start)
    | some ranges =>
      match follow ranges rest with
      | .complete => faultFrom (start + 1 + ranges.length) (rest.drop ranges.length)
      | .ended _ => some (.incomplete start)
      | .stopped matched => some (.invalid (matched + 1) start)
  termination_by bytes => bytes.length
  decreasing_by simp only [List.length_drop, List.length_cons]; omega

/-- Reads a byte string as text. -/
def decode (bytes : Bytes) : Except Fault String :=
  match String.fromUTF8? bytes.toByteArray with
  | some text => .ok text
  | none => .error ((faultFrom 0 bytes).getD (.incomplete bytes.length))

theorem toByteArray_encode (text : String) : (encode text).toByteArray = text.toByteArray := by
  apply ByteArray.ext
  simp [encode, List.data_toByteArray]

/-- Every text is read back from its bytes. -/
theorem decode_encode (text : String) : decode (encode text) = .ok text := by
  simp [decode, toByteArray_encode, String.fromUTF8?, text.isValidUTF8, String.fromUTF8]

/-- Only the bytes of a text are read as that text. -/
theorem encode_of_decode {bytes : Bytes} {text : String} (h : decode bytes = .ok text) :
    encode text = bytes := by
  unfold decode at h
  split at h
  · next found hfound =>
    simp only [String.fromUTF8?, String.fromUTF8, Option.dite_none_right_eq_some,
      Option.some.injEq] at hfound
    obtain ⟨_, rfl⟩ := hfound
    simp only [Except.ok.injEq] at h
    subst h
    simp [encode, List.data_toByteArray]
  · simp at h

/-- The character of a complete sequence of up to four bytes. -/
def sequenceChar (bytes : Bytes) : Char :=
  match bytes with
  | [a] => Char.ofNat a.toNat
  | [a, b] => Char.ofNat ((a.toNat % 32) * 64 + b.toNat % 64)
  | [a, b, c] => Char.ofNat ((a.toNat % 16) * 4096 + (b.toNat % 64) * 64 + c.toNat % 64)
  | [a, b, c, d] =>
    Char.ofNat ((a.toNat % 8) * 262144 + (b.toNat % 64) * 4096 + (c.toNat % 64) * 64 + d.toNat % 64)
  | _ => '\ufffd'

/-- The characters of a byte string, with U+FFFD for each broken piece: the longest good beginning
of a sequence, or one byte that starts none. -/
def lossyChars : Bytes → List Char
  | [] => []
  | first :: rest =>
    match continuation first with
    | none => '\ufffd' :: lossyChars rest
    | some ranges =>
      match follow ranges rest with
      | .complete =>
        sequenceChar (first :: rest.take ranges.length) :: lossyChars (rest.drop ranges.length)
      | .ended _ => ['\ufffd']
      | .stopped matched => '\ufffd' :: lossyChars (rest.drop matched)
  termination_by bytes => bytes.length
  decreasing_by all_goals (simp; try omega)

/-- Reads a byte string as text whatever it holds. -/
def decodeLossy (bytes : Bytes) : String :=
  match decode bytes with
  | .ok text => text
  | .error _ => String.ofList (lossyChars bytes)

end TripArchive.Utf8
