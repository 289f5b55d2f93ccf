import TripArchive.Bytes

/-!
# Signature schemes

What the items of the archive need of a signature scheme, and the one law they rely on: a
signature is accepted under the public key of the secret that made it.
-/

namespace TripArchive

/-- A deterministic signature scheme with thirty-two byte keys and sixty-four byte signatures. -/
structure SignatureScheme where
  /-- The public key of a secret. -/
  publicKey : (secret : Octets 32) → Octets 32
  /-- The signature of a message under a secret. -/
  sign : (secret : Octets 32) → (message : Bytes) → Octets 64
  /-- Whether a signature of a message is accepted under a public key. -/
  verify : (publicKey : Octets 32) → (message : Bytes) → (signature : Octets 64) → Bool

namespace SignatureScheme

/-- A scheme is sound when it accepts every signature it makes. -/
def Sound (scheme : SignatureScheme) : Prop :=
  ∀ secret message,
    scheme.verify (scheme.publicKey secret) message (scheme.sign secret message) = true

end SignatureScheme

end TripArchive
