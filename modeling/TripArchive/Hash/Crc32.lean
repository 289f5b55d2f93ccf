import TripArchive.Bytes

/-!
# CRC-32

The checksum of gzip members: the remainder by the polynomial 0xedb88320 in reflected bit order,
a byte at a time.
-/

namespace TripArchive.Crc32

/-- The remainder of one byte: eight steps of division. -/
def remainder (b : UInt32) : UInt32 :=
  (List.range 8).foldl
    (fun r _ => if r &&& 1 = 1 then (r >>> 1) ^^^ 0xedb88320 else r >>> 1) b

/-- The remainders of all bytes as a table. -/
def table : Array UInt32 := Array.ofFn fun i : Fin 256 => remainder (UInt32.ofNat i)

/-- Takes one byte into a running checksum. -/
def step (crc : UInt32) (b : UInt8) : UInt32 :=
  table.getD ((crc ^^^ b.toUInt32) &&& 0xff).toNat 0 ^^^ (crc >>> 8)

/-- The checksum of a byte string. -/
def checksum (bytes : Bytes) : UInt32 := bytes.foldl step 0xffffffff ^^^ 0xffffffff

end TripArchive.Crc32
