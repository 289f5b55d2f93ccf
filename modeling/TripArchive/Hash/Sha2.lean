import TripArchive.Bytes
import TripArchive.Number.Root
import TripArchive.Number.Width

/-!
# The SHA-2 family

SHA-256, SHA-384 and SHA-512 are one construction over words of two sizes. A `Family` holds what
differs between the sizes; the message is padded, cut into blocks of sixteen words, and each block
is mixed into a state of eight words.
-/

namespace TripArchive.Sha2

/-- The eight words of a hash state. -/
structure State (W : Type) where
  a : W
  b : W
  c : W
  d : W
  e : W
  f : W
  g : W
  h : W

/-- What a word size brings along: its width, the round constants, the arithmetic of words and the
four mixing functions. -/
structure Family (W : Type) where
  wordBytes : Nat
  ofNat : Nat → W
  toNat : W → Nat
  add : W → W → W
  choose : W → W → W → W
  majority : W → W → W → W
  bigSigma0 : W → W
  bigSigma1 : W → W
  smallSigma0 : W → W
  smallSigma1 : W → W
  constants : List W

variable {W : Type}

/-- A state from its words in order. -/
def State.ofList (zero : W) (words : List W) : State W :=
  let word (i : Nat) : W := words.getD i zero
  ⟨word 0, word 1, word 2, word 3, word 4, word 5, word 6, word 7⟩

/-- The words of a state in order. -/
def State.toList (s : State W) : List W := [s.a, s.b, s.c, s.d, s.e, s.f, s.g, s.h]

/-- Word-wise sum of two states. -/
def Family.addState (F : Family W) (s t : State W) : State W :=
  ⟨F.add s.a t.a, F.add s.b t.b, F.add s.c t.c, F.add s.d t.d,
    F.add s.e t.e, F.add s.f t.f, F.add s.g t.g, F.add s.h t.h⟩

/-- One round with a message word and a round constant. -/
def Family.round (F : Family W) (s : State W) (word constant : W) : State W :=
  let t₁ := F.add (F.add (F.add s.h (F.bigSigma1 s.e)) (F.add (F.choose s.e s.f s.g) constant)) word
  let t₂ := F.add (F.bigSigma0 s.a) (F.majority s.a s.b s.c)
  ⟨F.add t₁ t₂, s.a, s.b, s.c, F.add s.d t₁, s.e, s.f, s.g⟩

/-- The message word sixteen places after the first word of a window. -/
def Family.nextWord (F : Family W) (window : List W) : W :=
  match window with
  | w₀ :: w₁ :: _ :: _ :: _ :: _ :: _ :: _ :: _ :: w₉ :: _ :: _ :: _ :: _ :: w₁₄ :: _ =>
    F.add (F.add (F.smallSigma1 w₁₄) w₉) (F.add (F.smallSigma0 w₁) w₀)
  | _ => F.ofNat 0

/-- The rounds of a block, one for each constant, over a sliding window of message words. -/
def Family.rounds (F : Family W) : List W → List W → State W → State W
  | [], _, s => s
  | constant :: constants, window, s =>
    let word := window.headD (F.ofNat 0)
    F.rounds constants (window.tail ++ [F.nextWord window]) (F.round s word constant)

/-- Mixes a block of message words into a state. -/
def Family.compress (F : Family W) (s : State W) (block : List W) : State W :=
  F.addState s (F.rounds F.constants block s)

/-- The message, a one bit, zero bits up to a whole block, and the length in bits. -/
def Family.pad (F : Family W) (message : Bytes) : Bytes :=
  let block := 16 * F.wordBytes
  let tail := 2 * F.wordBytes
  let zeros := (block - (message.length + 1 + tail) % block) % block
  message ++ 0x80 :: (List.replicate zeros 0 ++ Bytes.ofNatBE tail (8 * message.length))

/-- The state after all blocks of a message. -/
def Family.run (F : Family W) (initial : State W) (message : Bytes) : State W :=
  let padded := F.pad message
  let count := padded.length / (16 * F.wordBytes)
  (Bytes.pieces (16 * F.wordBytes) count padded).foldl
    (fun s block =>
      F.compress s
        ((Bytes.pieces F.wordBytes 16 block).map fun bytes => F.ofNat (Bytes.toNatBE bytes)))
    initial

/-- The bytes of the state after all blocks of a message. -/
def Family.digest (F : Family W) (initial : State W) (message : Bytes) : Bytes :=
  (F.run initial message).toList.flatMap fun w => Bytes.ofNatBE F.wordBytes (F.toNat w)

/-- The first `bits` bits after the point of a root of a prime. -/
def fraction (power bits p : Nat) : Nat :=
  Number.root power (bits + 8) (p <<< (power * bits)) % span bits

/-- Rotation of a word of thirty-two bits to the right. -/
def rotate32 (w : UInt32) (n : UInt32) : UInt32 := (w >>> n) ||| (w <<< (32 - n))

/-- Rotation of a word of sixty-four bits to the right. -/
def rotate64 (w : UInt64) (n : UInt64) : UInt64 := (w >>> n) ||| (w <<< (64 - n))

/-- The round constants of thirty-two bits: cube roots of the first sixty-four primes. -/
def constants32 : List UInt32 :=
  (Number.primes.take 64).map fun p => UInt32.ofNat (fraction 3 32 p)

/-- The round constants of sixty-four bits: cube roots of the first eighty primes. -/
def constants64 : List UInt64 :=
  Number.primes.map fun p => UInt64.ofNat (fraction 3 64 p)

/-- The family over words of thirty-two bits. -/
def family32 : Family UInt32 where
  wordBytes := 4
  ofNat := UInt32.ofNat
  toNat := UInt32.toNat
  add := (· + ·)
  choose x y z := (x &&& y) ^^^ (~~~x &&& z)
  majority x y z := (x &&& y) ^^^ (x &&& z) ^^^ (y &&& z)
  bigSigma0 x := rotate32 x 2 ^^^ rotate32 x 13 ^^^ rotate32 x 22
  bigSigma1 x := rotate32 x 6 ^^^ rotate32 x 11 ^^^ rotate32 x 25
  smallSigma0 x := rotate32 x 7 ^^^ rotate32 x 18 ^^^ (x >>> 3)
  smallSigma1 x := rotate32 x 17 ^^^ rotate32 x 19 ^^^ (x >>> 10)
  constants := constants32

/-- The family over words of sixty-four bits. -/
def family64 : Family UInt64 where
  wordBytes := 8
  ofNat := UInt64.ofNat
  toNat := UInt64.toNat
  add := (· + ·)
  choose x y z := (x &&& y) ^^^ (~~~x &&& z)
  majority x y z := (x &&& y) ^^^ (x &&& z) ^^^ (y &&& z)
  bigSigma0 x := rotate64 x 28 ^^^ rotate64 x 34 ^^^ rotate64 x 39
  bigSigma1 x := rotate64 x 14 ^^^ rotate64 x 18 ^^^ rotate64 x 41
  smallSigma0 x := rotate64 x 1 ^^^ rotate64 x 8 ^^^ (x >>> 7)
  smallSigma1 x := rotate64 x 19 ^^^ rotate64 x 61 ^^^ (x >>> 6)
  constants := constants64

/-- The first state of SHA-256: square roots of the first eight primes. -/
def initial256 : State UInt32 :=
  State.ofList 0 ((Number.primes.take 8).map fun p => UInt32.ofNat (fraction 2 32 p))

/-- The first state of SHA-384: square roots of the ninth to sixteenth prime. -/
def initial384 : State UInt64 :=
  State.ofList 0 (((Number.primes.drop 8).take 8).map fun p => UInt64.ofNat (fraction 2 64 p))

/-- The first state of SHA-512: square roots of the first eight primes. -/
def initial512 : State UInt64 :=
  State.ofList 0 ((Number.primes.take 8).map fun p => UInt64.ofNat (fraction 2 64 p))

/-- The thirty-two bytes of SHA-256. -/
def sha256 (message : Bytes) : Bytes := family32.digest initial256 message

/-- The forty-eight bytes of SHA-384: a SHA-512 run from another state, cut short. -/
def sha384 (message : Bytes) : Bytes := (family64.digest initial384 message).take 48

/-- The sixty-four bytes of SHA-512. -/
def sha512 (message : Bytes) : Bytes := family64.digest initial512 message

/-- A digest has eight words. -/
theorem Family.length_digest (F : Family W) (initial : State W) (message : Bytes) :
    (F.digest initial message).length = 8 * F.wordBytes := by
  simp only [digest, State.toList, List.flatMap_cons, List.flatMap_nil, List.length_append,
    Bytes.length_ofNatBE, List.length_nil]
  omega

@[simp] theorem length_sha256 (message : Bytes) : (sha256 message).length = 32 :=
  family32.length_digest initial256 message

@[simp] theorem length_sha384 (message : Bytes) : (sha384 message).length = 48 := by
  simp [sha384, Family.length_digest, family64]

@[simp] theorem length_sha512 (message : Bytes) : (sha512 message).length = 64 :=
  family64.length_digest initial512 message

end TripArchive.Sha2
