import TripArchive.Gzip.Huffman

/-!
# Deflate streams

`inflate` reads every kind of block: stored bytes, the fixed codes and codes sent along. Which
blocks are written is up to a `Compressor`. `deflate` writes stored ones, which any reader of the
format accepts.
-/

namespace TripArchive.Gzip

/-- Base value and number of further bits of the length symbols from 257 on. -/
def lengthRanges : List (Nat × Nat) :=
  [(3, 0), (4, 0), (5, 0), (6, 0), (7, 0), (8, 0), (9, 0), (10, 0), (11, 1), (13, 1), (15, 1),
    (17, 1), (19, 2), (23, 2), (27, 2), (31, 2), (35, 3), (43, 3), (51, 3), (59, 3), (67, 4),
    (83, 4), (99, 4), (115, 4), (131, 5), (163, 5), (195, 5), (227, 5), (258, 0)]

/-- Base value and number of further bits of the distance symbols. -/
def distanceRanges : List (Nat × Nat) :=
  [(1, 0), (2, 0), (3, 0), (4, 0), (5, 1), (7, 1), (9, 2), (13, 2), (17, 3), (25, 3), (33, 4),
    (49, 4), (65, 5), (97, 5), (129, 6), (193, 6), (257, 7), (385, 7), (513, 8), (769, 8),
    (1025, 9), (1537, 9), (2049, 10), (3073, 10), (4097, 11), (6145, 11), (8193, 12), (12289, 12),
    (16385, 13), (24577, 13)]

/-- The fixed literal code. -/
def fixedLiterals : Tree :=
  Tree.ofLengths (List.replicate 144 8 ++ List.replicate 112 9 ++ List.replicate 24 7 ++
    List.replicate 8 8)

/-- The fixed distance code. -/
def fixedDistances : Tree := Tree.ofLengths (List.replicate 32 5)

/-- The order in which the lengths of the length code are sent. -/
def lengthOrder : List Nat := [16, 17, 18, 0, 8, 7, 9, 6, 10, 5, 11, 4, 12, 3, 13, 2, 14, 1, 15]

/-- A symbol's base value plus its further bits; a symbol without a range is refused. -/
def ranged (ranges : List (Nat × Nat)) (symbol : Nat) (s : Bits) : Except Fault (Nat × Bits) :=
  match ranges[symbol]? with
  | none => .error .corrupt
  | some (base, extra) => do
    let (n, s) ← s.number extra
    .ok (base + n, s)

/-- Repeats `length` bytes from `distance` back. The window before the first byte holds zeros. -/
def copy : (length : Nat) → (distance : Nat) → Array UInt8 → Array UInt8
  | 0, _, out => out
  | length + 1, distance, out =>
    let b := if distance ≤ out.size then out.getD (out.size - distance) 0 else 0
    copy length distance (out.push b)

/-- Reads literals and repetitions up to the end of a block. Every symbol takes at least one bit,
so `fuel`, the number of bits left, runs out only when the input does. -/
def symbols (literals distances : Tree) :
    (fuel : Nat) → Bits → Array UInt8 → Except Fault (Array UInt8 × Bits)
  | 0, _, _ => .error .truncated
  | fuel + 1, s, out => do
    let (symbol, s) ← literals.read s
    if symbol < 256 then symbols literals distances fuel s (out.push (UInt8.ofNat symbol))
    else if symbol = 256 then .ok (out, s)
    else
      let (length, s) ← ranged lengthRanges (symbol - 257) s
      let (symbol, s) ← distances.read s
      let (distance, s) ← ranged distanceRanges symbol s
      symbols literals distances fuel s (copy length distance out)

/-- Reads `count` numbers of three bits. -/
def threeBits : (count : Nat) → Bits → Except Fault (List Nat × Bits)
  | 0, s => .ok ([], s)
  | count + 1, s => do
    let (n, s) ← s.number 3
    let (ns, s) ← threeBits count s
    .ok (n :: ns, s)

/-- Reads word lengths until there are `total`; `known` holds them from the last to the first.
Three symbols repeat the last length or zero, and no repetition may pass the total. -/
def wordLengths (code : Tree) (total : Nat) :
    (fuel : Nat) → Bits → List Nat → Except Fault (List Nat × Bits)
  | 0, s, known =>
    if known.length = total then .ok (known.reverse, s)
    else if known.length < total then .error .truncated
    else .error .corrupt
  | fuel + 1, s, known =>
    if known.length = total then .ok (known.reverse, s)
    else if total < known.length then .error .corrupt
    else do
      let (symbol, s) ← code.read s
      if symbol < 16 then wordLengths code total fuel s (symbol :: known)
      else if symbol = 16 then
        match known with
        | [] => .error .corrupt
        | last :: _ =>
          let (n, s) ← s.number 2
          wordLengths code total fuel s (List.replicate (3 + n) last ++ known)
      else if symbol = 17 then
        let (n, s) ← s.number 3
        wordLengths code total fuel s (List.replicate (3 + n) 0 ++ known)
      else
        let (n, s) ← s.number 7
        wordLengths code total fuel s (List.replicate (11 + n) 0 ++ known)

/-- Reads the literal and the distance code of a block that sends them along. -/
def sentCodes (s : Bits) : Except Fault ((Tree × Tree) × Bits) := do
  let (literals, s) ← s.number 5
  let (distances, s) ← s.number 5
  let (sent, s) ← s.number 4
  let literals := literals + 257
  let distances := distances + 1
  if 286 < literals ∨ 30 < distances then .error .corrupt
  else
    let (sizes, s) ← threeBits (sent + 4) s
    let lengths := (List.range 19).map fun symbol =>
      ((lengthOrder.zip sizes).lookup symbol).getD 0
    let code ← Tree.ofLengths? false lengths
    let (all, s) ← wordLengths code (literals + distances) (literals + distances) s []
    let distanceCode ← Tree.ofLengths? true (all.drop literals)
    let literalCode ← Tree.ofLengths? true (all.take literals)
    .ok ((literalCode, distanceCode), s)

/-- Reads a stored block: its length, the complement of its length, and its bytes. -/
def stored (bytes : Bytes) (out : Array UInt8) : Except Fault (Array UInt8 × Bits) :=
  match bytes with
  | l₀ :: l₁ :: n₀ :: n₁ :: rest =>
    let length := Bytes.toNatLE [l₀, l₁]
    if Bytes.toNatLE [n₀, n₁] = 65535 - length then
      if length ≤ rest.length then
        .ok (out ++ (rest.take length).toArray, Bits.ofBytes (rest.drop length))
      else .error .truncated
    else .error .corrupt
  | _ => .error .truncated

/-- Reads the contents of a block of the given kind. -/
def block (kind : Nat) (s : Bits) (out : Array UInt8) : Except Fault (Array UInt8 × Bits) :=
  match kind with
  | 0 => stored s.rest out
  | 1 => symbols fixedLiterals fixedDistances s.left s out
  | 2 => do
    let ((literals, distances), s) ← sentCodes s
    symbols literals distances s.left s out
  | _ => .error .corrupt

/-- Reads blocks up to the last one. Every block takes at least three bits, so `fuel`, the number
of bits left, runs out only when the input does. -/
def blocks : (fuel : Nat) → Bits → Array UInt8 → Except Fault (Array UInt8 × Bits)
  | 0, _, _ => .error .truncated
  | fuel + 1, s, out => do
    let (last, s) ← s.number 1
    let (kind, s) ← s.number 2
    let (out, s) ← block kind s out
    if last = 1 then .ok (out, s) else blocks fuel s out

/-- Expands a stream and gives the bytes after it. -/
def inflate (bytes : Bytes) : Except Fault (Bytes × Bytes) := do
  let (out, s) ← blocks (Bits.ofBytes bytes).left (Bits.ofBytes bytes) #[]
  .ok (out.toList, s.rest)

/-- What writes streams. It is free to choose their blocks, as long as a stream is expanded to its
data. -/
structure Compressor where
  stream : Bytes → Bytes
  expands : ∀ data, inflate (stream data) = .ok (data, [])

/-- A stored block of at most 65535 bytes. -/
def storedBlock (last : Bool) (data : Bytes) : Bytes :=
  (if last then 1 else 0) ::
    (Bytes.ofNatLE 2 data.length ++ Bytes.ofNatLE 2 (65535 - data.length) ++ data)

/-- Writes a byte string as stored blocks. -/
def deflate (data : Bytes) : Bytes :=
  if data.length ≤ 65535 then storedBlock true data
  else storedBlock false (data.take 65535) ++ deflate (data.drop 65535)
  termination_by data.length
  decreasing_by simp; omega

end TripArchive.Gzip
