import TripArchive.Failure
import TripArchive.Item.Tag
import TripArchive.Item.Varint
import TripArchive.Number.Width

/-!
# The bytes of a list of tags

Tags travel in blocks, each a count followed by that many pairs of texts with their lengths; a
zero count ends the list, and no bytes at all stand for no tags. Writing uses one block. Reading
also takes several blocks and blocks with a negative count, which announces a byte size as well.
The least count of sixty-four bits has no magnitude, and reading panics at it.
-/

namespace TripArchive.TagList

/-- Why bytes are no list of tags. -/
inductive Fault
  | varint (fault : Varint.Fault)
  | negativeLength (length : Int)
  | overrun
  | text (fault : Utf8.Fault)
  | trailing (count : Nat)
  deriving DecidableEq, Repr

/-- The words for a fault. -/
def Fault.message : Fault → String
  | varint .truncated => "truncated varint"
  | varint .overflow => "varint overflow"
  | negativeLength length => s!"negative length {length}"
  | overrun => "tag field overruns buffer"
  | text (.incomplete start) => s!"incomplete utf-8 byte sequence from index {start}"
  | text (.invalid length start) => s!"invalid utf-8 sequence of {length} bytes from index {start}"
  | trailing count => s!"{count} trailing bytes after tag array"

/-- Writes a text with its length. -/
def writeText (text : String) : Bytes :=
  Varint.write (Utf8.encode text).length ++ Utf8.encode text

/-- Writes a tag. -/
def writeTag (tag : Tag) : Bytes := writeText tag.name ++ writeText tag.value

/-- Writes a list of tags. -/
def write (tags : List Tag) : Bytes :=
  if tags = [] then []
  else Varint.write tags.length ++ tags.flatMap writeTag ++ Varint.write 0

/-- Reads a number. -/
def readNumber (bytes : Bytes) : Except Fault (Int × Bytes) :=
  (Varint.read bytes).mapError .varint

/-- Reads a text with its length. -/
def readText (bytes : Bytes) : Except Fault (String × Bytes) := do
  let (length, bytes) ← readNumber bytes
  if length < 0 then .error (.negativeLength length)
  else if bytes.length < length.toNat then .error .overrun
  else
    let text ← (Utf8.decode (bytes.take length.toNat)).mapError .text
    .ok (text, bytes.drop length.toNat)

/-- Reads a tag. -/
def readTag (bytes : Bytes) : Except Fault (Tag × Bytes) := do
  let (name, bytes) ← readText bytes
  let (value, bytes) ← readText bytes
  .ok (⟨name, value⟩, bytes)

/-- Reads `count` tags. -/
def readTags : (count : Nat) → Bytes → Except Fault (List Tag × Bytes)
  | 0, bytes => .ok ([], bytes)
  | count + 1, bytes => do
    let (tag, bytes) ← readTag bytes
    let (tags, bytes) ← readTags count bytes
    .ok (tag :: tags, bytes)

/-- The words of the panic at a number whose negation overflows. -/
def negationOverflow : String := "attempt to negate with overflow"

/-- The number of tags that a block count announces: its magnitude. The least number of sixty-four
bits has none of that width. -/
def blockSize (count : Int) : Except (Failure Fault) Nat :=
  if count = minInt64 then .error (.panicked negationOverflow) else .ok count.natAbs

/-- Reads the byte size that follows a negative block count. -/
def skipSize (count : Int) (bytes : Bytes) : Except Fault Bytes :=
  if count < 0 then do
    let (_, bytes) ← readNumber bytes
    .ok bytes
  else .ok bytes

/-- Reads blocks up to the zero count. Every block takes at least one byte, so `fuel`, one more
than the number of bytes, runs out only when the input does. -/
def readBlocks : (fuel : Nat) → Bytes → Except (Failure Fault) (List Tag × Bytes)
  | 0, _ => .error (.refused (.varint .truncated))
  | fuel + 1, bytes => do
    let (count, bytes) ← readNumber bytes
    if count = 0 then .ok ([], bytes)
    else
      let size ← blockSize count
      let bytes ← skipSize count bytes
      let (tags, bytes) ← readTags size bytes
      let (more, bytes) ← readBlocks fuel bytes
      .ok (tags ++ more, bytes)

/-- Reads a list of tags that fills the bytes. -/
def read (bytes : Bytes) : Except (Failure Fault) (List Tag) :=
  if bytes = [] then .ok []
  else do
    let (tags, rest) ← readBlocks (bytes.length + 1) bytes
    if rest = [] then .ok tags else .error (.refused (.trailing rest.length))

end TripArchive.TagList
