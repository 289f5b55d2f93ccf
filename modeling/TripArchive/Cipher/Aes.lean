import TripArchive.Bytes

/-!
# AES with keys of 256 bits

The block cipher in its encrypting direction, which is all that counter mode needs. The
substitution box is computed from its definition: the inverse in the field of 256 elements and an
affine map.
-/

namespace TripArchive.Aes

/-- Twice a byte in the field of 256 elements. -/
def double (b : UInt8) : UInt8 := if b < 0x80 then b <<< 1 else (b <<< 1) ^^^ 0x1b

/-- Product in the field of 256 elements, over the bits of the first factor. -/
def times (a b : UInt8) : UInt8 :=
  ((List.range 8).foldl
    (fun (sum, power) i => (if a.toNat.testBit i then sum ^^^ power else sum, double power))
    ((0 : UInt8), b)).1

/-- Inverse in the field of 256 elements, the power 254; zero for zero. -/
def inverse (b : UInt8) : UInt8 :=
  ((List.range 7).foldl
    (fun (product, power) _ => let square := times power power; (times product square, square))
    ((1 : UInt8), b)).1

/-- Rotation of a byte to the left. -/
def rotate (b n : UInt8) : UInt8 := (b <<< n) ||| (b >>> (8 - n))

/-- The substitution of a byte by its definition. -/
def substitute (b : UInt8) : UInt8 :=
  let i := inverse b
  i ^^^ rotate i 1 ^^^ rotate i 2 ^^^ rotate i 3 ^^^ rotate i 4 ^^^ 0x63

/-- The substitution box as a table. -/
def box : Array UInt8 := Array.ofFn fun i : Fin 256 => substitute (UInt8.ofNat i)

/-- The substitution of a byte, looked up. -/
def lookUp (b : UInt8) : UInt8 := box.getD b.toNat 0

/-- Bytewise exclusive or, as long as both last. -/
def mix (a b : Bytes) : Bytes := List.zipWith (· ^^^ ·) a b

/-- The words of the key schedule after the first eight; `window` holds the last eight words. -/
def expandFrom : (count index : Nat) → (constant : UInt8) → (window : List Bytes) → List Bytes
  | 0, _, _, _ => []
  | count + 1, index, constant, window =>
    let last := window.getLastD []
    let fed :=
      if index % 8 = 0 then
        mix ((last.tail ++ last.take 1).map lookUp) [constant, 0, 0, 0]
      else if index % 8 = 4 then last.map lookUp
      else last
    let word := mix (window.headD []) fed
    let constant := if index % 8 = 0 then double constant else constant
    word :: expandFrom count (index + 1) constant (window.tail ++ [word])

/-- The fifteen round keys of a key. -/
def roundKeys (key : Bytes) : List Bytes :=
  let first := Bytes.pieces 4 8 key
  Bytes.pieces 16 15 (first ++ expandFrom 52 8 1 first).flatten

/-- Moves row `r` of the four by four state, kept by columns, `r` places to the left. -/
def shiftRows : Bytes → Bytes
  | [b0, b1, b2, b3, b4, b5, b6, b7, b8, b9, ba, bb, bc, bd, be, bf] =>
    [b0, b5, ba, bf, b4, b9, be, b3, b8, bd, b2, b7, bc, b1, b6, bb]
  | other => other

/-- Multiplies every column of the state by the fixed polynomial. -/
def mixColumns : Bytes → Bytes
  | a :: b :: c :: d :: rest =>
    (double a ^^^ double b ^^^ b ^^^ c ^^^ d) :: (a ^^^ double b ^^^ double c ^^^ c ^^^ d) ::
      (a ^^^ b ^^^ double c ^^^ double d ^^^ d) :: (double a ^^^ a ^^^ b ^^^ c ^^^ double d) ::
      mixColumns rest
  | _ => []

/-- The rounds after the first key, the last of them without the mixing of columns. -/
def rounds : List Bytes → Bytes → Bytes
  | [], state => state
  | [key], state => mix (shiftRows (state.map lookUp)) key
  | key :: keys, state => rounds keys (mix (mixColumns (shiftRows (state.map lookUp))) key)

/-- Encrypts one block of sixteen bytes under expanded keys. -/
def encryptBlock (keys : List Bytes) (block : Bytes) : Bytes :=
  match keys with
  | [] => block
  | key :: keys => rounds keys (mix block key)

end TripArchive.Aes
