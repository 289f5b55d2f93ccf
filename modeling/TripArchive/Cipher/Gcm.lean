import TripArchive.Cipher.Aes

/-!
# AES-256 in Galois counter mode

Authenticated encryption with a nonce of twelve bytes and no additional data. `decrypt?_encrypt`
says that decrypting undoes encrypting under the same key and nonce.
-/

namespace TripArchive.Gcm

/-- The product in the field of 2^128 elements, over the bits of the first factor from the highest
down, in the bit order of the mode. -/
def timesFrom : (count : Nat) → (x v z : BitVec 128) → BitVec 128
  | 0, _, _, z => z
  | count + 1, x, v, z =>
    let z := if x.msb then z ^^^ v else z
    let v := if v.getLsbD 0 then (v >>> 1) ^^^ 0xe1000000000000000000000000000000#128 else v >>> 1
    timesFrom count (x <<< 1) v z

/-- The product in the field of 2^128 elements. -/
def times (x y : BitVec 128) : BitVec 128 := timesFrom 128 x y 0

/-- Sixteen bytes as a field element; a shorter block is completed by zeros. -/
def element (block : Bytes) : BitVec 128 :=
  BitVec.ofNat 128 (Bytes.toNatBE (block ++ List.replicate (16 - block.length) 0))

/-- The authentication hash of a ciphertext: its blocks and its length in bits. -/
def hash (h : BitVec 128) (ciphertext : Bytes) : BitVec 128 :=
  let blocks := Bytes.pieces 16 ((ciphertext.length + 15) / 16) ciphertext
  let y := blocks.foldl (fun y block => times (y ^^^ element block) h) 0
  times (y ^^^ BitVec.ofNat 128 (8 * ciphertext.length)) h

/-- The counter block of a number. -/
def counter (nonce : Bytes) (n : Nat) : Bytes := nonce ++ Bytes.ofNatBE 4 n

/-- Encrypts the counters from `start` on. -/
def keystream (keys : List Bytes) (nonce : Bytes) : (blocks start : Nat) → Bytes
  | 0, _ => []
  | blocks + 1, start =>
    Aes.encryptBlock keys (counter nonce start) ++ keystream keys nonce blocks (start + 1)

/-- Adds the key stream, as long as it lasts; a text without key stream stays as it is. -/
def addStream : Bytes → Bytes → Bytes
  | [], _ => []
  | text, [] => text
  | b :: text, k :: stream => (b ^^^ k) :: addStream text stream

/-- Encrypts or decrypts: the text plus the key stream from counter two on. -/
def cover (keys : List Bytes) (nonce text : Bytes) : Bytes :=
  addStream text (keystream keys nonce ((text.length + 15) / 16) 2)

/-- The sixteen bytes that authenticate a ciphertext. -/
def tag (keys : List Bytes) (nonce ciphertext : Bytes) : Bytes :=
  let h := element (Aes.encryptBlock keys (List.replicate 16 0))
  let masked := hash h ciphertext ^^^ element (Aes.encryptBlock keys (counter nonce 1))
  Bytes.ofNatBE 16 masked.toNat

/-- Encrypts a text and appends its tag. -/
def encrypt (key nonce plaintext : Bytes) : Bytes :=
  let keys := Aes.roundKeys key
  let ciphertext := cover keys nonce plaintext
  ciphertext ++ tag keys nonce ciphertext

/-- Checks the tag and decrypts; `none` if the tag is missing or wrong. -/
def decrypt? (key nonce sealed : Bytes) : Option Bytes :=
  if sealed.length < 16 then none
  else
    let keys := Aes.roundKeys key
    let ciphertext := sealed.take (sealed.length - 16)
    if sealed.drop (sealed.length - 16) = tag keys nonce ciphertext then
      some (cover keys nonce ciphertext)
    else none

@[simp] theorem length_addStream (text stream : Bytes) :
    (addStream text stream).length = text.length := by
  fun_induction addStream text stream <;> simp_all

/-- Adding the same key stream twice gives the text back. -/
theorem addStream_addStream (text stream : Bytes) :
    addStream (addStream text stream) stream = text := by
  fun_induction addStream text stream with
  | case1 => simp [addStream]
  | case2 text h => cases text <;> simp_all [addStream]
  | case3 b text k stream ih =>
    have cancel : b ^^^ k ^^^ k = b := by rw [UInt8.xor_assoc, UInt8.xor_self, UInt8.xor_zero]
    simp [addStream, ih, cancel]

@[simp] theorem length_tag (keys : List Bytes) (nonce ciphertext : Bytes) :
    (tag keys nonce ciphertext).length = 16 := by
  simp [tag]

/-- Covering a covered text uncovers it. -/
theorem cover_cover (keys : List Bytes) (nonce text : Bytes) :
    cover keys nonce (cover keys nonce text) = text := by
  unfold cover
  rw [length_addStream, addStream_addStream]

/-- What was encrypted is decrypted to the plaintext. -/
theorem decrypt?_encrypt (key nonce plaintext : Bytes) :
    decrypt? key nonce (encrypt key nonce plaintext) = some plaintext := by
  have hlen : ∀ ciphertext : Bytes,
      (ciphertext ++ tag (Aes.roundKeys key) nonce ciphertext).length - 16 =
        ciphertext.length := by
    intro ciphertext
    simp
  have hlong : ¬ (encrypt key nonce plaintext).length < 16 := by
    simp [encrypt]
  rw [decrypt?, if_neg hlong]
  simp only [encrypt, hlen, List.take_left, List.drop_left, if_true, cover_cover]

end TripArchive.Gcm
