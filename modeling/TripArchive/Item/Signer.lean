import TripArchive.Signature.Ed25519
import TripArchive.Text.Base64
import TripArchive.Text.Blank

/-!
# The signer of the archive

The long-lived identity that signs every item: a scheme and a secret seed, which is configured as
a base64 text.
-/

namespace TripArchive

/-- A signature scheme with a secret seed. -/
structure Signer where
  scheme : SignatureScheme
  seed : Octets 32

namespace Signer

/-- Why a text holds no seed. -/
inductive KeyFault
  /-- The text is no base64. -/
  | encoding
  /-- The bytes are not thirty-two. -/
  | length (found : Nat)
  deriving DecidableEq, Repr

/-- The words for a text that holds no seed. -/
def KeyFault.message : KeyFault → String
  | encoding => "the text is no base64"
  | length found => s!"expected 32 bytes, got {found}"

/-- The Ed25519 signer of a seed. -/
def ofSeed (seed : Octets 32) : Signer := ⟨Ed25519.scheme, seed⟩

/-- The Ed25519 signer of a configured text; blanks around it do not count. -/
def ofBase64 (encoded : String) : Except KeyFault Signer :=
  match Base64.decode (Blank.trim encoded) with
  | none => .error .encoding
  | some seed =>
    match Octets.ofBytes? 32 seed with
    | none => .error (.length seed.length)
    | some seed => .ok (ofSeed seed)

/-- The public key, which the items name as their owner. -/
def publicKey (signer : Signer) : Octets 32 := signer.scheme.publicKey signer.seed

/-- The signature of a message. -/
def sign (signer : Signer) (message : Bytes) : Octets 64 :=
  signer.scheme.sign signer.seed message

/-- How logs show a signer: by its public key alone. -/
def describe (signer : Signer) : String :=
  "ItemSigner \x7b owner: \"" ++ Base64.encodeAddressSafe signer.publicKey.val ++ "\" \x7d"

end Signer

end TripArchive
