import Mathlib.Data.List.TakeWhile
import TripArchive.Proofs.Json.Scan
import TripArchive.Proofs.Text.Utf8

/-!
# Written numbers are read back

An integer of sixty-four bits is read back from its digits (`number?_int`). A double is printed
without white space, so if its text alone is read back, it is read as a number to its end
(`number?_double`).
-/

namespace TripArchive.Json

namespace Raw

/-- A digit is a byte of its own. -/
theorem utf8EncodeChar_digit {c : Char} (h : c.isDigit = true) :
    ∃ b, String.utf8EncodeChar c = [b] ∧ b.toNat = c.toNat ∧ isDigit b = true := by
  simp only [Char.isDigit, Bool.and_eq_true, decide_eq_true_eq] at h
  have hlow : 48 ≤ c.toNat := UInt32.le_iff_toNat_le.mp h.1
  have hhigh : c.toNat ≤ 57 := UInt32.le_iff_toNat_le.mp h.2
  have hbyte : (UInt8.ofNat c.toNat).toNat = c.toNat := by
    rw [UInt8.toNat_ofNat', Nat.mod_eq_of_lt (by omega)]
  refine ⟨_, Utf8.utf8EncodeChar_of_ascii (by omega), hbyte, ?_⟩
  simp only [isDigit, Bool.and_eq_true, decide_eq_true_eq, UInt8.le_iff_toNat_le, hbyte]
  exact ⟨hlow, hhigh⟩

/-- Digits as bytes spell the same number. -/
theorem ofChars_digits {chars : List Char} (h : ∀ c ∈ chars, c.isDigit = true) :
    (∀ b ∈ Utf8.ofChars chars, isDigit b = true) ∧
      digitsValue (Utf8.ofChars chars) = Nat.ofDigitChars 10 chars 0 := by
  suffices hfold : ∀ n, (∀ b ∈ Utf8.ofChars chars, isDigit b = true) ∧
      (Utf8.ofChars chars).foldl (fun n b => 10 * n + (b.toNat - 48)) n =
        Nat.ofDigitChars 10 chars n from hfold 0
  induction chars with
  | nil => exact fun n => ⟨nofun, rfl⟩
  | cons c chars ih =>
    obtain ⟨hfirst, hrest⟩ := List.forall_mem_cons.mp h
    obtain ⟨b, hbytes, hbyte, hdigit⟩ := utf8EncodeChar_digit hfirst
    intro n
    obtain ⟨hdigits, hvalue⟩ := ih hrest (10 * n + (c.toNat - 48))
    rw [Utf8.ofChars_cons, hbytes, List.singleton_append]
    refine ⟨List.forall_mem_cons.mpr ⟨hdigit, hdigits⟩, ?_⟩
    rw [List.foldl_cons, hbyte]
    exact hvalue

/-- The digits of a positive number do not begin with a zero. -/
theorem head?_toDigits_ne {n : Nat} (h : 0 < n) : (Nat.toDigits 10 n).head? ≠ some '0' := by
  induction n using Nat.strongRecOn with
  | _ n ih =>
    rw [Nat.toDigits_eq_if (by decide)]
    split
    · next hsmall =>
      have hall : ∀ m < 10, 0 < m → [Nat.digitChar m].head? ≠ some '0' := by decide
      exact hall n hsmall h
    · have hhigh := ih (n / 10) (by omega) (by omega)
      obtain ⟨c, chars, hchars⟩ := List.exists_cons_of_ne_nil (Nat.toDigits_ne_nil (n := n / 10)
        (b := 10))
      rw [hchars] at hhigh ⊢
      exact hhigh

/-- The digits of a number are read as digits before the point. -/
theorem whole?_toDigits (n : Nat) : whole? (Utf8.ofChars (Nat.toDigits 10 n)) =
    some (Utf8.ofChars (Nat.toDigits 10 n), []) := by
  by_cases hzero : n = 0
  · subst hzero
    decide
  · have hisDigit (c : Char) (hc : c ∈ Nat.toDigits 10 n) : c.isDigit = true :=
      Nat.isDigit_of_mem_toDigits (by decide) (by decide) hc
    have hhead := head?_toDigits_ne (Nat.pos_of_ne_zero hzero)
    obtain ⟨c, chars, hchars⟩ := List.exists_cons_of_ne_nil (Nat.toDigits_ne_nil (n := n) (b := 10))
    rw [hchars] at hisDigit hhead ⊢
    obtain ⟨b, hbytes, hbyte, hdigit⟩ := utf8EncodeChar_digit (hisDigit c List.mem_cons_self)
    have hne : b ≠ 0x30 := by
      rintro rfl
      exact hhead (congrArg some (Char.toNat_inj.mp hbyte.symm))
    have hdigits := (ofChars_digits hisDigit).1
    rw [Utf8.ofChars_cons, hbytes, List.singleton_append] at hdigits ⊢
    have htaken : (b :: Utf8.ofChars chars).takeWhile isDigit = b :: Utf8.ofChars chars :=
      List.takeWhile_eq_self_iff.mpr hdigits
    have hdropped : (b :: Utf8.ofChars chars).dropWhile isDigit = [] :=
      List.dropWhile_eq_nil_iff.mpr hdigits
    rw [whole?]
    · rw [digits?, htaken, hdropped]
      rfl
    · rintro rest ⟨⟩
      exact hne rfl

/-- Digits alone are an integer if it fits. -/
theorem numberOf_whole (negative : Bool) {whole : Bytes} {n : Nat} (hvalue : digitsValue whole = n)
    (hzero : ¬ (negative = true ∧ n = 0)) (hspan : n < span 64)
    (hnegative : negative = true → n ≤ span 63) :
    numberOf negative whole none none = some (.int (if negative then -(n : Int) else n)) := by
  subst hvalue
  unfold numberOf
  simp only [Option.getD_none, List.append_nil]
  exact if_pos ⟨rfl, rfl, hzero, hspan, hnegative⟩

/-- The digits of a number are read as that number. -/
theorem unsigned?_toDigits (negative : Bool) (n : Nat) :
    unsigned? negative (Utf8.ofChars (Nat.toDigits 10 n)) =
      some (.number (numberOf negative (Utf8.ofChars (Nat.toDigits 10 n)) none none), []) := by
  unfold unsigned?
  rw [whole?_toDigits]
  rfl

end Raw

open Raw

/-- Whether an integer can be held in a number. -/
def InRange (n : Int) : Prop := minInt64 ≤ n ∧ n ≤ maxNat64

/-- An integer is read back. -/
theorem number?_int {n : Int} (h : InRange n) :
    number? (Utf8.ofChars (Number.int n).write) = some (.number (some (.int n)), []) := by
  have hdigits (m : Nat) := ofChars_digits fun c (hc : c ∈ Nat.toDigits 10 m) =>
    Nat.isDigit_of_mem_toDigits (by decide) (by decide) hc
  have hvalue (m : Nat) : digitsValue (Utf8.ofChars (Nat.toDigits 10 m)) = m :=
    (hdigits m).2.trans Nat.ofDigitChars_ten_toDigits
  have hspan : span 64 = 18446744073709551616 ∧ span 63 = 9223372036854775808 := by decide
  obtain ⟨hlow, hhigh⟩ := h
  unfold minInt64 at hlow
  unfold maxNat64 at hhigh
  cases n with
  | ofNat m =>
    have hwrite : (Number.int (Int.ofNat m)).write = Nat.toDigits 10 m := Nat.toList_repr
    have hfirst : ∀ b ∈ (Utf8.ofChars (Nat.toDigits 10 m)).head?, b ≠ 0x2d := by
      rintro _ hb rfl
      exact absurd ((hdigits m).1 _ (List.mem_of_mem_head? hb)) (by decide)
    have hmost : (m : Int) ≤ 18446744073709551615 := hhigh
    have hfits : m < span 64 := by
      rw [hspan.1]
      omega
    rw [hwrite, number?_of_ne hfirst, unsigned?_toDigits,
      numberOf_whole false (hvalue m) (by simp) hfits (by simp)]
    rfl
  | negSucc m =>
    have hwrite : (Number.int (Int.negSucc m)).write = '-' :: Nat.toDigits 10 (m + 1) := by
      show ("-" ++ Nat.repr (m + 1)).toList = _
      rw [String.toList_append, Nat.toList_repr]
      rfl
    have hminus : Utf8.ofChars ('-' :: Nat.toDigits 10 (m + 1)) =
        0x2d :: Utf8.ofChars (Nat.toDigits 10 (m + 1)) := rfl
    have hfits : m + 1 ≤ span 63 := by
      rw [hspan.2]
      omega
    have hlarge : m + 1 < span 64 := by
      rw [hspan.1]
      omega
    rw [hwrite, hminus, number?_minus, unsigned?_toDigits,
      numberOf_whole true (hvalue (m + 1)) (by omega) hlarge fun _ => hfits]
    rfl

/-- Whether a double is read back when it is printed alone. -/
def ReadsBack (x : Float) : Prop :=
  parse? (Utf8.encode (Json.number (.double x)).text) = some (.number (.double x))

/-- The double of a value that is one. -/
def double? : Json → Option Float
  | .number (.double x) => some x
  | _ => none

/-- A value is a double if its double is. -/
theorem double?_eq_some_iff {found : Option Json} {x : Float} :
    found.bind double? = some x ↔ found = some (.number (.double x)) := by
  constructor
  · intro h
    obtain ⟨value, hfound, hvalue⟩ := Option.bind_eq_some_iff.mp h
    unfold double? at hvalue
    split at hvalue
    · cases hvalue
      exact hfound
    · cases hvalue
  · rintro rfl
    rfl

instance (x : Float) : Decidable (ReadsBack x) := decidable_of_iff _ double?_eq_some_iff

/-- Characters that are seen: they are ASCII and no blanks. -/
def Visible (chars : List Char) : Prop := ∀ c ∈ chars, 32 < c.toNat ∧ c.toNat < 128

instance (chars : List Char) : Decidable (Visible chars) := List.decidableBAll _ _

/-- Visible characters are no white space. -/
theorem Visible.not_isSpace {chars : List Char} (h : Visible chars) :
    ∀ b ∈ Utf8.ofChars chars, isSpace b = false := by
  intro b hb
  obtain ⟨c, hc, hbyte⟩ := List.mem_flatMap.mp hb
  obtain ⟨hlow, hhigh⟩ := h c hc
  rw [Utf8.utf8EncodeChar_of_ascii hhigh, List.mem_singleton] at hbyte
  subst hbyte
  have hvalue : (UInt8.ofNat c.toNat).toNat = c.toNat := by
    rw [UInt8.toNat_ofNat', Nat.mod_eq_of_lt (by omega)]
  have hne (space : UInt8) (hspace : space.toNat ≤ 32) : UInt8.ofNat c.toNat ≠ space := by
    intro heq
    rw [heq] at hvalue
    omega
  simp [isSpace, hne 0x20 (by decide), hne 0x0a (by decide), hne 0x0d (by decide),
    hne 0x09 (by decide)]

/-- Visible characters put together are visible. -/
theorem Visible.append {chars more : List Char} (h : Visible chars) (hmore : Visible more) :
    Visible (chars ++ more) := by
  intro c hc
  rcases List.mem_append.mp hc with hfirst | hsecond
  · exact h c hfirst
  · exact hmore c hsecond

/-- A visible character before visible ones is one of them. -/
theorem Visible.cons {c : Char} {chars : List Char} (hc : 32 < c.toNat ∧ c.toNat < 128)
    (h : Visible chars) : Visible (c :: chars) := List.forall_mem_cons.mpr ⟨hc, h⟩

/-- Some of visible characters are visible. -/
theorem Visible.of_subset {chars part : List Char} (h : Visible chars) (hpart : part ⊆ chars) :
    Visible part := fun c hc => h c (hpart hc)

/-- The digits of a number are visible. -/
theorem visible_toDigits (n : Nat) : Visible (Nat.toDigits 10 n) := by
  intro c hc
  have hdigit := Nat.isDigit_of_mem_toDigits (b := 10) (n := n) (by decide) (by decide) hc
  simp only [Char.isDigit, Bool.and_eq_true, decide_eq_true_eq] at hdigit
  have hlow : 48 ≤ c.toNat := UInt32.le_iff_toNat_le.mp hdigit.1
  have hhigh : c.toNat ≤ 57 := UInt32.le_iff_toNat_le.mp hdigit.2
  omega

/-- Zeros are visible. -/
theorem visible_zeros (n : Nat) : Visible (List.replicate n '0') := by
  intro c hc
  rw [List.eq_of_mem_replicate hc]
  decide

/-- A sign is visible. -/
theorem visible_sign (negative : Bool) : Visible (if negative then ['-'] else []) := by
  cases negative with
  | true => decide
  | false => decide

/-- Digits with a point in their place are visible. -/
theorem visible_plain {digits : List Char} (h : Visible digits) (point : Int) :
    Visible (Double.plain digits point).1 ∧ Visible (Double.plain digits point).2 := by
  unfold Double.plain
  split
  · exact ⟨visible_zeros 1, (visible_zeros _).append h⟩
  · split
    · exact ⟨h.append (visible_zeros _), visible_zeros 0⟩
    · exact ⟨h.of_subset (List.take_subset _ _), h.of_subset (List.drop_subset _ _)⟩

/-- A printed double is visible. -/
theorem visible_writeDouble (x : Float) : Visible (writeDouble x) := by
  have hnull : Visible ['n', 'u', 'l', 'l'] := by decide
  have hzero : Visible ['0', '.', '0'] := by decide
  have hpoint : 32 < '.'.toNat ∧ '.'.toNat < 128 := by decide
  have hmark : 32 < 'e'.toNat ∧ 'e'.toNat < 128 := by decide
  unfold writeDouble
  dsimp only
  generalize hsign : (if Double.isNegative x = true then ['-'] else []) = sign
  have hsignVisible : Visible sign := hsign ▸ visible_sign _
  generalize Double.shortest (if Double.isNegative x then -x else x) = d
  have hdigits := visible_toDigits d.digits
  split
  · exact hnull
  · split
    · exact hsignVisible.append hzero
    · split
      · obtain ⟨hwhole, hfraction⟩ := visible_plain hdigits
          ((Nat.toDigits 10 d.digits).length + d.exponent)
        refine (hsignVisible.append hwhole).append (Visible.cons hpoint ?_)
        split
        · exact visible_zeros 1
        · exact hfraction
      · refine ((hsignVisible.append (hdigits.of_subset (List.take_subset _ _))).append ?_).append
          (Visible.cons hmark (Visible.cons ?_ (visible_toDigits _)))
        · split
          · exact visible_zeros 0
          · exact Visible.cons hpoint (hdigits.of_subset (List.tail_sublist _).subset)
        · split
          · decide
          · decide

/-- What is read as a number is one in the text. -/
theorem eq_number_of_value {raw : Raw} {depth : Nat} {n : Number}
    (h : Raw.value depth raw = some (.number n)) : raw = .number (some n) := by
  cases raw with
  | null => cases h
  | bool b => cases h
  | number found =>
    obtain ⟨_, rfl, hn⟩ := Option.map_eq_some_iff.mp h
    cases hn
    rfl
  | string found =>
    obtain ⟨_, _, hn⟩ := Option.map_eq_some_iff.mp h
    cases hn
  | array items =>
    rw [Raw.value] at h
    split at h
    · cases h
    · obtain ⟨_, _, hn⟩ := Option.map_eq_some_iff.mp h
      cases hn
  | object fields =>
    rw [Raw.value] at h
    split at h
    · cases h
    · obtain ⟨_, _, hn⟩ := Option.map_eq_some_iff.mp h
      cases hn

/-- A double that is read back is read as a number. -/
theorem number?_double {x : Float} (h : ReadsBack x) :
    number? (Utf8.ofChars (Number.double x).write) = some (.number (some (.double x)), []) := by
  have hspace : ∀ b ∈ Utf8.ofChars (Json.number (.double x)).write, isSpace b = false :=
    (visible_writeDouble x).not_isSpace
  unfold ReadsBack Json.text at h
  rw [Utf8.encode_ofList] at h
  obtain ⟨raw, hparse, hvalue⟩ := Option.bind_eq_some_iff.mp h
  obtain rfl := eq_number_of_value hvalue
  unfold Raw.parse? at hparse
  split at hparse
  · next value left hread =>
    split at hparse
    · next hempty =>
      cases hparse
      have hnumber := number?_of_value? hread
      rw [skipSpace_eq_self hspace] at hnumber
      -- What is left is white space at the end of a text that has none.
      have hleft : skipSpace left = left := skipSpace_eq_self fun b hb =>
        hspace b ((number?_local.suffix hnumber).subset hb)
      rw [hleft, List.isEmpty_iff] at hempty
      subst hempty
      exact hnumber
    · cases hparse
  · cases hparse

end TripArchive.Json
