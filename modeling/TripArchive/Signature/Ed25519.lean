import TripArchive.Hash.Sha2
import TripArchive.Signature.Edwards
import TripArchive.Signature.Scheme

/-!
# Ed25519

Signatures on the Edwards curve over 2^255 - 19. A signature is a point followed by a scalar;
it is accepted when the point recomputed from the scalar has exactly the bytes that were sent.
-/

namespace TripArchive.Ed25519

open Edwards

/-- The secret scalar and the nonce key of a seed. -/
def expand (seed : Bytes) : Nat × Bytes :=
  let digest := Sha2.sha512 seed
  let low := Bytes.toNatLE (digest.take 32)
  (span 254 + low % span 254 / 8 * 8, digest.drop 32)

/-- The public key of a seed. -/
def publicKey (seed : Bytes) : Bytes := (Point.smul (expand seed).1 Point.base).compress

/-- A hash as a scalar. -/
def hashScalar (bytes : Bytes) : Nat := Bytes.toNatLE (Sha2.sha512 bytes) % order

/-- The signature of a message under a seed. -/
def sign (seed message : Bytes) : Bytes :=
  let (scalar, nonceKey) := expand seed
  let nonce := hashScalar (nonceKey ++ message)
  let point := (Point.smul nonce Point.base).compress
  let challenge := hashScalar (point ++ publicKey seed ++ message)
  point ++ Bytes.ofNatLE 32 ((nonce + challenge * scalar) % order)

/-- Whether a signature is accepted. The scalar has to be below the order, and the recomputed
point has to have the bytes of the signature's first half. -/
def verify (key message signature : Bytes) : Bool :=
  let sent := signature.take 32
  let scalar := Bytes.toNatLE (signature.drop 32)
  match Point.decompress? key with
  | none => false
  | some point =>
    if scalar < order then
      let challenge := hashScalar (sent ++ key ++ message)
      let recomputed := (Point.smul scalar Point.base).add (Point.smul challenge point.neg)
      recomputed.compress == sent
    else false

/-- The scheme that signs the items of the archive. -/
def scheme : SignatureScheme where
  publicKey seed := ⟨publicKey seed.val, by simp [publicKey]⟩
  sign seed message := ⟨sign seed.val message, by simp [sign]⟩
  verify key message signature := verify key.val message signature.val

end TripArchive.Ed25519
