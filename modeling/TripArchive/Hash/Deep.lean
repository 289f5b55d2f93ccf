import TripArchive.Hash.Sha2
import TripArchive.Text.Utf8

/-!
# Deep hashes

The hash that a data item signs: a list of byte strings is folded into one SHA-384 digest, in which
the number of the strings and the length of each are bound before their contents.
-/

namespace TripArchive.Deep

/-- The decimal digits of a number as bytes. -/
def decimal (n : Nat) : Bytes := Utf8.encode (toString n)

/-- The hash of one byte string: its marked length, then its digest. -/
def hashBlob (data : Bytes) : Bytes :=
  Sha2.sha384 (Sha2.sha384 (Utf8.encode "blob" ++ decimal data.length) ++ Sha2.sha384 data)

/-- Takes one byte string into the running hash of a list. -/
def absorb (acc item : Bytes) : Bytes := Sha2.sha384 (acc ++ hashBlob item)

/-- The hash of a list of byte strings. -/
def hashList (items : List Bytes) : Bytes :=
  items.foldl absorb (Sha2.sha384 (Utf8.encode "list" ++ decimal items.length))

end TripArchive.Deep
