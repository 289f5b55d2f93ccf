import TripArchive.Hash.Deep
import TripArchive.Item.Signer
import TripArchive.Item.TagList

/-!
# Data items

What the archive network stores: data with tags, signed by its owner. An item travels as

    type, signature, owner, target flag, target, anchor flag, anchor,
    number of tags, length of the tag bytes, tag bytes, data

The signature covers the deep hash of everything after it, and the identifier of an item is the
hash of its signature. Items keep the bytes in which their tags came, since the signature is over
those bytes.
-/

namespace TripArchive

/-- A signed data item. -/
structure Item where
  signature : Octets 64
  owner : Octets 32
  target : Option (Octets 32)
  anchor : Option (Octets 32)
  tags : List Tag
  rawTags : Bytes
  data : Bytes
  deriving DecidableEq

namespace Item

/-- The parts of an item before its data. -/
inductive Field
  | signatureType
  | signature
  | owner
  | target
  | anchor
  | tagCount
  | tagLength
  | tags
  deriving DecidableEq, Repr

/-- What messages call a part of an item. -/
def Field.name : Field → String
  | signatureType => "signature type"
  | signature => "signature"
  | owner => "owner"
  | target => "target"
  | anchor => "anchor"
  | tagCount => "tag count"
  | tagLength => "tag length"
  | tags => "tags"

/-- Why an item cannot be made, read or accepted. The reasons given as texts are the words of the
tag list, of the tag limits and of the key. -/
inductive Error
  | truncated (field : Field)
  | unsupportedSignatureType (found : Nat)
  | malformedTags (reason : String)
  | tagLimit (reason : String)
  | invalidSignerKey (reason : String)
  | invalidSignature
  deriving DecidableEq, Repr

/-- The words for an error. -/
def Error.message : Error → String
  | truncated field => s!"data item truncated while reading {field.name}"
  | unsupportedSignatureType found => s!"unsupported signature type {found}"
  | malformedTags reason => s!"malformed tags: {reason}"
  | tagLimit reason => s!"tag limits exceeded: {reason}"
  | invalidSignerKey reason => s!"invalid signer key: {reason}"
  | invalidSignature => "signature verification failed"

/-- The signature type of Ed25519 owners. -/
def ed25519Type : Nat := 2

/-- The message that an owner signs. -/
def signatureMessage (owner : Octets 32) (target anchor : Option (Octets 32))
    (rawTags data : Bytes) : Bytes :=
  Deep.hashList
    [Utf8.encode "dataitem", Utf8.encode "1", Deep.decimal ed25519Type, owner.val,
      (target.map Subtype.val).getD [], (anchor.map Subtype.val).getD [], rawTags, data]

/-- The message that the signature of an item is over. -/
def message (item : Item) : Bytes :=
  signatureMessage item.owner item.target item.anchor item.rawTags item.data

/-- Signs data and tags, if the tags keep the limits. -/
def sign (signer : Signer) (tags : List Tag) (data : Bytes) : Except Error Item :=
  match Tag.excess tags with
  | some excess => .error (.tagLimit excess.message)
  | none =>
    let rawTags := TagList.write tags
    let owner := signer.publicKey
    let signature := signer.sign (signatureMessage owner none none rawTags data)
    .ok ⟨signature, owner, none, none, tags, rawTags, data⟩

/-- The identifier that the archive network gives an item. -/
def id (item : Item) : String := Base64.encodeAddressSafe (Sha2.sha256 item.signature.val)

/-- The value of the first tag with a name. -/
def tag? (item : Item) (name : String) : Option String :=
  (item.tags.find? fun tag => tag.name = name).map Tag.value

/-- Checks the signature of an item under a scheme. -/
def verify (scheme : SignatureScheme) (item : Item) : Except Error Unit :=
  if scheme.verify item.owner item.message item.signature then .ok ()
  else .error .invalidSignature

/-- An optional part: a flag, and the part if the flag is set. -/
def writeOptional : Option (Octets 32) → Bytes
  | none => [0]
  | some bytes => 1 :: bytes.val

/-- The bytes of an item. -/
def toBytes (item : Item) : Bytes :=
  Bytes.ofNatLE 2 ed25519Type ++ item.signature.val ++ item.owner.val ++
    writeOptional item.target ++ writeOptional item.anchor ++
    Bytes.ofNatLE 8 item.tags.length ++ Bytes.ofNatLE 8 item.rawTags.length ++
    item.rawTags ++ item.data

/-- Reads exactly `n` bytes of a part. -/
def readOctets (field : Field) (n : Nat) (bytes : Bytes) : Except Error (Octets n × Bytes) :=
  if h : n ≤ bytes.length then
    .ok (⟨bytes.take n, by simp [h]⟩, bytes.drop n)
  else .error (.truncated field)

/-- Reads an optional part; every flag but zero says that it is there. -/
def readOptional (field : Field) (bytes : Bytes) :
    Except Error (Option (Octets 32) × Bytes) :=
  match bytes with
  | [] => .error (.truncated field)
  | flag :: bytes =>
    if flag = 0 then .ok (none, bytes)
    else do
      let (part, bytes) ← readOctets field 32 bytes
      .ok (some part, bytes)

/-- Reads an item. Tags of which a block count has no magnitude make the reading panic. -/
def ofBytes (bytes : Bytes) : Except (Failure Error) Item := do
  let (type, bytes) ← readOctets .signatureType 2 bytes
  if Bytes.toNatLE type.val ≠ ed25519Type then
    .error (.refused (.unsupportedSignatureType (Bytes.toNatLE type.val)))
  else
    let (signature, bytes) ← readOctets .signature 64 bytes
    let (owner, bytes) ← readOctets .owner 32 bytes
    let (target, bytes) ← readOptional .target bytes
    let (anchor, bytes) ← readOptional .anchor bytes
    let (count, bytes) ← readOctets .tagCount 8 bytes
    let (length, bytes) ← readOctets .tagLength 8 bytes
    let (rawTags, data) ← readOctets .tags (Bytes.toNatLE length.val) bytes
    let tags ← (TagList.read rawTags.val).mapError
      (Failure.map fun fault => .malformedTags fault.message)
    let declared := Bytes.toNatLE count.val
    if tags.length = declared then
      .ok ⟨signature, owner, target, anchor, tags, rawTags.val, data⟩
    else
      .error (.refused (.malformedTags s!"header declares {declared} tags, found {tags.length}"))

end Item

end TripArchive
