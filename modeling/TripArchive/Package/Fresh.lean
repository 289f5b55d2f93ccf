import TripArchive.Package

/-!
# Fresh keys and nonces

Key material is drawn from a secret seed by hashing it with the number of the draw, so that every
draw of a seed is another one short of a hash collision.
-/

namespace TripArchive.Package.Fresh

/-- The thirty-two bytes of a numbered draw. -/
def draw (seed : Bytes) (n : Nat) : Octets 32 :=
  ⟨Sha2.sha256 (seed ++ Bytes.ofNatLE 8 n), Sha2.length_sha256 _⟩

/-- The segment key of a numbered draw. -/
def key (seed : Bytes) (n : Nat) : SegmentKey := draw seed n

/-- The nonce of a numbered draw. -/
def nonce (seed : Bytes) (n : Nat) : Nonce :=
  ⟨(draw seed n).val.take 12, by simp [(draw seed n).property]⟩

end TripArchive.Package.Fresh
