import TripArchive.Cipher.Gcm
import TripArchive.Gzip.Member
import TripArchive.Item
import TripArchive.Time.Rfc3339

/-!
# Packages

The telemetry of a segment is compressed as one named entry, encrypted under the key of the
segment and signed with tags that describe it. Unpacking goes the same way back.
-/

namespace TripArchive.Package

/-- The key of a segment. -/
abbrev SegmentKey := Octets 32

/-- The nonce of one encryption. -/
abbrev Nonce := Octets 12

/-- Why packing or unpacking fails. -/
inductive Error
  | compression (reason : String)
  | decompression (fault : Gzip.Fault)
  | encryption
  | decryption
  | missingNonce
  | item (error : Item.Error)
  deriving DecidableEq, Repr

/-- The words for an error. A container that cannot be expanded is described by its fault. -/
def Error.message : Error → String
  | compression reason => s!"compression failed: {reason}"
  | decompression .truncated => "decompression failed: the input ends too early"
  | decompression .corrupt => "decompression failed: the input is corrupt"
  | decompression .stalled => "decompression failed: gzip member consumed no input"
  | encryption => "encryption failed"
  | decryption => "decryption failed"
  | missingNonce => "archive item is missing a valid Nonce tag"
  | item error => error.message

/-- How logs show the key of a segment: not at all. -/
def SegmentKey.describe (_ : SegmentKey) : String := "SegmentKey(..)"

/-- Why a byte string is no segment key. -/
inductive KeyError
  | length (found : Nat)
  deriving DecidableEq, Repr

/-- The words for a byte string that is no segment key. -/
def KeyError.message : KeyError → String
  | length _ => "could not convert slice to array"

/-- The segment key with the given bytes. -/
def SegmentKey.ofBytes (bytes : Bytes) : Except KeyError SegmentKey :=
  match Octets.ofBytes? 32 bytes with
  | some key => .ok key
  | none => .error (.length bytes.length)

/-- Which segment a package holds. -/
structure Label where
  vehicleToken : Int
  segmentId : String
  start : Instant
  finish : Instant
  deriving DecidableEq, Repr

/-- Whether a character may stand in the name of an entry. -/
def isNameChar (c : Char) : Bool :=
  ('a' ≤ c && c ≤ 'z') || ('A' ≤ c && c ≤ 'Z') || ('0' ≤ c && c ≤ '9') || c == '-' || c == '_'

/-- A character of an entry name, an underscore in place of one that may not stand there. -/
def nameChar (c : Char) : Char := if isNameChar c then c else '_'

/-- The characters of an entry name. -/
def Label.nameChars (label : Label) : List Char :=
  let text := toString label.vehicleToken ++ "_" ++ label.segmentId ++ "_" ++
    toString label.start.seconds ++ "_" ++ toString label.finish.seconds
  text.toList.map nameChar ++ ['.', 'j', 's', 'o', 'n']

/-- A character that may stand in a name is not NUL. -/
theorem nameChar_ne_nul (c : Char) : nameChar c ≠ '\x00' := by
  unfold nameChar
  split
  · next h =>
    intro hc
    subst hc
    exact absurd h (by decide)
  · decide

/-- The name of the one entry of a package: token, segment and range of seconds. -/
def Label.entryName (label : Label) : Gzip.Name :=
  ⟨String.ofList label.nameChars, by
    simp only [String.toList_ofList, Label.nameChars, List.mem_append, List.mem_map, not_or]
    refine ⟨fun ⟨c, _, hc⟩ => nameChar_ne_nul c hc, by decide⟩⟩

/-- The name of the tag that carries the nonce. -/
def nonceTag : String := "Nonce"

/-- The tags of a package. -/
def Label.tags (label : Label) (nonce : Nonce) : List Tag :=
  [⟨"Content-Type", "application/gzip"⟩,
    ⟨"Trip-Type", "segment"⟩,
    ⟨"Vehicle-Token-ID", toString label.vehicleToken⟩,
    ⟨"Segment-ID", label.segmentId⟩,
    ⟨"Start-Time", Rfc3339.write .millis label.start⟩,
    ⟨"End-Time", Rfc3339.write .millis label.finish⟩,
    ⟨nonceTag, Base64.encode nonce.val⟩]

/-- Encrypts a text under the key of a segment. -/
def encrypt (plaintext : Bytes) (key : SegmentKey) (nonce : Nonce) : Bytes :=
  Gcm.encrypt key.val nonce.val plaintext

/-- Decrypts a text, if it was encrypted under the same key and nonce. -/
def decrypt (ciphertext : Bytes) (key : SegmentKey) (nonce : Nonce) : Except Error Bytes :=
  match Gcm.decrypt? key.val nonce.val ciphertext with
  | some plaintext => .ok plaintext
  | none => .error .decryption

/-- Expands a compressed container. -/
def decompress (compressed : Bytes) : Except Error (List Gzip.Entry) :=
  (Gzip.decompress compressed).mapError .decompression

/-- Compresses, encrypts and signs the telemetry of a segment. -/
def pack (compressor : Gzip.Compressor) (signer : Signer) (raw : Bytes) (key : SegmentKey)
    (nonce : Nonce) (label : Label) : Except Error Item :=
  let compressed := Gzip.compress compressor raw label.entryName
  (Item.sign signer (label.tags nonce) (encrypt compressed key nonce)).mapError .item

/-- The nonce of a package, from its tag. -/
def nonceOf (item : Item) : Except Error Nonce :=
  match (item.tag? nonceTag).bind Base64.decode with
  | none => .error .missingNonce
  | some raw =>
    match Octets.ofBytes? 12 raw with
    | none => .error .missingNonce
    | some nonce => .ok nonce

/-- Verifies, decrypts and expands a package. -/
def unpack (scheme : SignatureScheme) (item : Item) (key : SegmentKey) :
    Except Error (List Gzip.Entry) := do
  (item.verify scheme).mapError .item
  let nonce ← nonceOf item
  let compressed ← decrypt item.data key nonce
  decompress compressed

end TripArchive.Package
