import TripArchive.Text.Utf8

/-!
# The bytes of single characters

The bytes of a text are those of its characters in turn, one to four for each. Only NUL has a zero
among them, and an ASCII character has one byte.
-/

namespace TripArchive.Utf8

variable {text : String}

/-- The bytes of a text are those of its characters. -/
theorem encode_eq_flatMap (text : String) :
    encode text = text.toList.flatMap String.utf8EncodeChar := by
  unfold encode
  rw [← String.utf8Encode_toList, List.utf8Encode, List.data_toByteArray]

/-- A number that spells the zero byte is zero or too large for a byte. -/
theorem ofNat_ne_zero {n : Nat} (hpos : 0 < n) (hlt : n < 256) : 0 ≠ UInt8.ofNat n := by
  intro hzero
  have htoNat := congrArg UInt8.toNat hzero
  have hsmall : (0 : UInt8).toNat = 0 := rfl
  simp only [UInt8.toNat_ofNat'] at htoNat
  omega

/-- Only NUL has a zero byte: in a longer sequence every byte carries its mark. -/
theorem zero_not_mem_utf8EncodeChar {c : Char} (h : c ≠ '\x00') :
    0 ∉ String.utf8EncodeChar c := by
  have hpos : 0 < c.val.toNat := by
    refine Nat.pos_of_ne_zero fun hzero => h ?_
    exact Char.ext (UInt32.toNat_inj.mp hzero)
  unfold String.utf8EncodeChar
  dsimp only
  generalize c.val.toNat = v at hpos
  split
  · next hascii => simp [ofNat_ne_zero hpos (by omega)]
  · split
    · simp only [List.mem_cons, List.not_mem_nil, or_false, not_or]
      exact ⟨ofNat_ne_zero (by omega) (by omega), ofNat_ne_zero (by omega) (by omega)⟩
    · split
      · simp only [List.mem_cons, List.not_mem_nil, or_false, not_or]
        exact ⟨ofNat_ne_zero (by omega) (by omega), ofNat_ne_zero (by omega) (by omega),
          ofNat_ne_zero (by omega) (by omega)⟩
      · simp only [List.mem_cons, List.not_mem_nil, or_false, not_or]
        exact ⟨ofNat_ne_zero (by omega) (by omega), ofNat_ne_zero (by omega) (by omega),
          ofNat_ne_zero (by omega) (by omega), ofNat_ne_zero (by omega) (by omega)⟩

/-- A text without NUL has no zero byte. -/
theorem zero_not_mem_encode (h : '\x00' ∉ text.toList) : 0 ∉ encode text := by
  rw [encode_eq_flatMap, List.mem_flatMap]
  rintro ⟨c, hc, hzero⟩
  exact zero_not_mem_utf8EncodeChar (fun heq => h (heq ▸ hc)) hzero

/-- A text of ASCII characters has as many bytes as characters. -/
theorem length_encode_of_ascii (h : ∀ c ∈ text.toList, c.toNat < 128) :
    (encode text).length = text.toList.length := by
  have hone : ∀ c ∈ text.toList, (String.utf8EncodeChar c).length = 1 := by
    intro c hc
    have hsize : c.utf8Size = 1 := by
      rw [Char.utf8Size_eq_one_iff, UInt32.le_iff_toNat_le]
      exact Nat.le_of_lt_succ (h c hc)
    rw [String.length_utf8EncodeChar, hsize]
  rw [encode_eq_flatMap, List.length_flatMap, List.map_congr_left hone, List.map_const',
    List.sum_replicate_nat, Nat.mul_one]

/-- A text has at least as many bytes as characters. -/
theorem length_toList_le (text : String) : text.toList.length ≤ (encode text).length := by
  rw [encode_eq_flatMap]
  induction text.toList with
  | nil => simp
  | cons c chars ih =>
    have hsome := c.utf8Size_pos
    rw [List.flatMap_cons, List.length_append, List.length_cons, String.length_utf8EncodeChar]
    omega

/-- A text has at most four times as many bytes as characters. -/
theorem length_encode_le (text : String) : (encode text).length ≤ 4 * text.toList.length := by
  rw [encode_eq_flatMap]
  induction text.toList with
  | nil => simp
  | cons c chars ih =>
    have hfour := c.utf8Size_le_four
    rw [List.flatMap_cons, List.length_append, List.length_cons, String.length_utf8EncodeChar]
    omega

/-- The bytes of some characters. -/
def ofChars (chars : List Char) : Bytes := chars.flatMap String.utf8EncodeChar

/-- The bytes of a text that is put together from characters. -/
theorem encode_ofList (chars : List Char) : encode (String.ofList chars) = ofChars chars := by
  rw [encode_eq_flatMap, String.toList_ofList]
  rfl

/-- The bytes of more characters follow. -/
theorem ofChars_append (chars more : List Char) :
    ofChars (chars ++ more) = ofChars chars ++ ofChars more := List.flatMap_append

/-- The bytes of the first character come first. -/
theorem ofChars_cons (c : Char) (chars : List Char) :
    ofChars (c :: chars) = String.utf8EncodeChar c ++ ofChars chars := List.flatMap_cons

/-- An ASCII character is its own byte. -/
theorem utf8EncodeChar_of_ascii {c : Char} (h : c.toNat < 128) :
    String.utf8EncodeChar c = [UInt8.ofNat c.toNat] := by
  unfold String.utf8EncodeChar
  dsimp only
  exact if_pos (Nat.le_of_lt_succ h)

end TripArchive.Utf8
