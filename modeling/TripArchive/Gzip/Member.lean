import TripArchive.Gzip.Deflate
import TripArchive.Hash.Crc32
import TripArchive.Text.Utf8

/-!
# Gzip containers

A container is a sequence of members, each a named entry with its checksum and length. `Name` is a
text that a member can carry: it holds no NUL, which ends the name in the header.
-/

namespace TripArchive.Gzip

/-- The name of an entry. -/
structure Name where
  text : String
  noNul : '\x00' ∉ text.toList

namespace Name

/-- The name with the given text, unless the text holds a NUL. -/
def ofString? (text : String) : Option Name :=
  if h : '\x00' ∉ text.toList then some ⟨text, h⟩ else none

end Name

/-- One entry of a container. -/
structure Entry where
  name : Option String
  data : Bytes
  deriving DecidableEq, Repr

/-- The longest name or comment that is read, in bytes. -/
def maxFieldBytes : Nat := 65535

/-- The header of a member with a name: no time, no level, no system. -/
def header (name : Name) : Bytes :=
  [0x1f, 0x8b, 8, 8, 0, 0, 0, 0, 0, 0xff] ++ Utf8.encode name.text ++ [0]

/-- The trailer of a member: checksum and length of the data. -/
def trailer (data : Bytes) : Bytes :=
  Bytes.ofNatLE 4 (Crc32.checksum data).toNat ++ Bytes.ofNatLE 4 data.length

/-- Writes one member. -/
def compress (compressor : Compressor) (data : Bytes) (name : Name) : Bytes :=
  header name ++ compressor.stream data ++ trailer data

/-- Reads the bytes up to a NUL, at most `room` of them. -/
def untilNul : (room : Nat) → Bytes → Except Fault (Bytes × Bytes)
  | _, [] => .error .truncated
  | 0, b :: rest => if b = 0 then .ok ([], rest) else .error .corrupt
  | room + 1, b :: rest =>
    if b = 0 then .ok ([], rest)
    else do
      let (field, rest) ← untilNul room rest
      .ok (b :: field, rest)

/-- Reads `n` bytes. -/
def takeBytes (n : Nat) (bytes : Bytes) : Except Fault (Bytes × Bytes) :=
  if n ≤ bytes.length then .ok (bytes.take n, bytes.drop n) else .error .truncated

/-- Reads a field if a flag of the header announces it. -/
def optional {α : Type} (flags : UInt8) (bit : Nat) (absent : α)
    (read : Bytes → Except Fault (α × Bytes)) (bytes : Bytes) : Except Fault (α × Bytes) :=
  if flags.toNat.testBit bit then read bytes else .ok (absent, bytes)

/-- Reads the extra field: its length and its bytes. -/
def extraField (bytes : Bytes) : Except Fault (Unit × Bytes) := do
  let (length, bytes) ← takeBytes 2 bytes
  let (_, bytes) ← takeBytes (Bytes.toNatLE length) bytes
  .ok ((), bytes)

/-- Reads a name or a comment. -/
def textField (bytes : Bytes) : Except Fault (Option Bytes × Bytes) := do
  let (field, bytes) ← untilNul maxFieldBytes bytes
  .ok (some field, bytes)

/-- Reads the checksum of the header, the low half of the CRC-32 of all header bytes before it;
`whole` is the member from its first byte on. -/
def headerChecksum (whole bytes : Bytes) : Except Fault (Unit × Bytes) := do
  let (sum, rest) ← takeBytes 2 bytes
  let before := whole.take (whole.length - bytes.length)
  if Bytes.toNatLE sum = (Crc32.checksum before).toNat % 65536 then .ok ((), rest)
  else .error .corrupt

/-- Reads a header and gives the bytes of the name. -/
def readHeader (bytes : Bytes) : Except Fault (Option Bytes × Bytes) :=
  match bytes with
  | id₁ :: id₂ :: method :: flags :: _ :: _ :: _ :: _ :: _ :: _ :: fields =>
    if id₁ = 0x1f ∧ id₂ = 0x8b ∧ method = 8 ∧ flags < 0x20 then do
      let (_, fields) ← optional flags 2 () extraField fields
      let (name, fields) ← optional flags 3 none textField fields
      let (_, fields) ← optional flags 4 none textField fields
      let (_, fields) ← optional flags 1 () (headerChecksum bytes) fields
      .ok (name, fields)
    else .error .corrupt
  | _ => .error .truncated

/-- Reads one member and gives the bytes after it. -/
def readMember (bytes : Bytes) : Except Fault (Entry × Bytes) := do
  let (name, body) ← readHeader bytes
  let (data, rest) ← inflate body
  let (sum, rest) ← takeBytes 8 rest
  if sum = trailer data then .ok (⟨name.map Utf8.decodeLossy, data⟩, rest)
  else .error .corrupt

/-- Expands every member of a container, in order. -/
def decompress (bytes : Bytes) : Except Fault (List Entry) :=
  if bytes = [] then .ok []
  else do
    let (entry, rest) ← readMember bytes
    if rest.length < bytes.length then
      let entries ← decompress rest
      .ok (entry :: entries)
    else .error .stalled
  termination_by bytes.length

end TripArchive.Gzip
