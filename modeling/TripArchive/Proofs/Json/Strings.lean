import TripArchive.Json.Raw
import TripArchive.Proofs.Text.Utf8

/-!
# Written strings are read back

The bytes of an escaped character pass through the reader of a string as they are, since none of
them ends it (`passes_escapeChar`); what comes through is turned back into the character
(`unescape?_escapeChar`). So every text is read back from its string, whatever follows
(`string?_writeString`).
-/

namespace TripArchive.Json.Raw

/-- Whether some bytes of a string are kept as they are, whatever follows. -/
def Passes (part : Bytes) : Prop :=
  ∀ tail, content? (part ++ tail) =
    (content? tail).map fun found => (part ++ found.1, found.2)

variable {part more : Bytes} {b : UInt8} {c : Char} {chars : List Char}

/-- No bytes are kept. -/
theorem passes_nil : Passes [] := by
  intro tail
  simp

/-- What is kept in two parts is kept. -/
theorem Passes.append (h : Passes part) (hmore : Passes more) : Passes (part ++ more) := by
  intro tail
  rw [List.append_assoc, h, hmore, Option.map_map]
  simp [Function.comp_def]

/-- A byte that neither ends a string nor begins an escape is kept. -/
theorem passes_plain (hcontrol : 0x20 ≤ b) (hquote : b ≠ 0x22) (hslash : b ≠ 0x5c) :
    Passes [b] := by
  intro tail
  have hplain : ¬ (b < 0x20 ∨ b = 0x5c) := not_or.mpr ⟨UInt8.not_lt.mpr hcontrol, hslash⟩
  rw [List.singleton_append, content?, if_neg hplain]
  · rfl
  · exact hquote
  · rintro _ _ _ _ _ ⟨⟩
    exact absurd rfl hslash
  · rintro _ _ ⟨⟩
    exact absurd rfl hslash

/-- A short escape is kept. -/
theorem passes_short (h : isShortEscape b = true) : Passes [0x5c, b] := by
  intro tail
  have hne : b ≠ 0x75 := by
    rintro rfl
    cases h
  show content? (0x5c :: b :: tail) = _
  rw [content?, if_pos h]
  · rfl
  · rintro _ _ _ _ _ ⟨⟩
    exact absurd rfl hne

/-- An escape with four digits is kept. -/
theorem passes_unit {h₁ h₂ h₃ h₄ : UInt8}
    (h : ([h₁, h₂, h₃, h₄].all fun digit => (hexValue? digit).isSome) = true) :
    Passes [0x5c, 0x75, h₁, h₂, h₃, h₄] := by
  intro tail
  show content? (0x5c :: 0x75 :: h₁ :: h₂ :: h₃ :: h₄ :: tail) = _
  rw [content?, if_pos h]
  rfl

/-- Bytes that are kept one by one are kept. -/
theorem passes_of_forall (h : ∀ b ∈ part, Passes [b]) : Passes part := by
  induction part with
  | nil => exact passes_nil
  | cons b part ih =>
    obtain ⟨hfirst, hrest⟩ := List.forall_mem_cons.mp h
    exact hfirst.append (ih hrest)

/-- A hexadecimal digit is a byte of its own and has its value. -/
theorem hexDigit_spec {n : Nat} (h : n < 16) :
    (∃ b, String.utf8EncodeChar (Bytes.hexDigit n) = [b] ∧ (hexValue? b).isSome = true) ∧
      Bytes.hexValue? (Bytes.hexDigit n) = some n := by
  have hall : ∀ m < 16, (Bytes.hexDigit m).toNat < 128 ∧
      (hexValue? (UInt8.ofNat (Bytes.hexDigit m).toNat)).isSome = true ∧
      Bytes.hexValue? (Bytes.hexDigit m) = some m := by decide
  obtain ⟨hascii, hvalue, hdigit⟩ := hall n h
  exact ⟨⟨_, Utf8.utf8EncodeChar_of_ascii hascii, hvalue⟩, hdigit⟩

/-- Every byte of a character that is not ASCII has its mark. -/
theorem le_of_mem_utf8EncodeChar (hc : 128 ≤ c.toNat) (hb : b ∈ String.utf8EncodeChar c) :
    128 ≤ b.toNat := by
  have hmark (n : Nat) (hlow : 128 ≤ n) (hhigh : n < 256) : 128 ≤ (UInt8.ofNat n).toNat := by
    rw [UInt8.toNat_ofNat', Nat.mod_eq_of_lt hhigh]
    exact hlow
  have hleast : ¬ c.val.toNat ≤ 127 := Nat.not_le.mpr hc
  unfold String.utf8EncodeChar at hb
  dsimp only at hb
  rw [if_neg hleast] at hb
  generalize c.val.toNat = v at hb
  split at hb
  · simp only [List.mem_cons, List.not_mem_nil, or_false] at hb
    rcases hb with rfl | rfl
    · exact hmark _ (by omega) (by omega)
    · exact hmark _ (by omega) (by omega)
  · split at hb
    · simp only [List.mem_cons, List.not_mem_nil, or_false] at hb
      rcases hb with rfl | rfl | rfl
      · exact hmark _ (by omega) (by omega)
      · exact hmark _ (by omega) (by omega)
      · exact hmark _ (by omega) (by omega)
    · simp only [List.mem_cons, List.not_mem_nil, or_false] at hb
      rcases hb with rfl | rfl | rfl | rfl
      · exact hmark _ (by omega) (by omega)
      · exact hmark _ (by omega) (by omega)
      · exact hmark _ (by omega) (by omega)
      · exact hmark _ (by omega) (by omega)

/-- A character that is not escaped is kept. -/
theorem passes_utf8EncodeChar (hcontrol : 32 ≤ c.toNat) (hquote : c ≠ '"') (hslash : c ≠ '\\') :
    Passes (String.utf8EncodeChar c) := by
  refine passes_of_forall fun b hb => ?_
  by_cases hascii : c.toNat < 128
  · rw [Utf8.utf8EncodeChar_of_ascii hascii, List.mem_singleton] at hb
    have hvalue : b.toNat = c.toNat := by
      rw [hb, UInt8.toNat_ofNat', Nat.mod_eq_of_lt (by omega)]
    refine passes_plain (UInt8.le_iff_toNat_le.mpr (by rw [hvalue]; exact hcontrol)) ?_ ?_
    · rintro rfl
      exact hquote (Char.toNat_inj.mp hvalue.symm)
    · rintro rfl
      exact hslash (Char.toNat_inj.mp hvalue.symm)
  · have hmark := le_of_mem_utf8EncodeChar (Nat.not_lt.mp hascii) hb
    refine passes_plain (UInt8.le_iff_toNat_le.mpr (Nat.le_trans (by decide) hmark)) ?_ ?_
    · rintro rfl
      exact absurd hmark (by decide)
    · rintro rfl
      exact absurd hmark (by decide)

/-- The ways in which a character is written. -/
inductive Escape : Char → List Char → Prop
  /-- A backslash and one character. -/
  | short {d : Char} (hd : d ∈ ['"', '\\', 'b', 'f', 'n', 'r', 't']) :
      Escape (shortEscape d) ['\\', d]
  /-- A control by its number. -/
  | unit {c : Char} (hcontrol : c.toNat < 32) :
      Escape c ['\\', 'u', '0', '0', Bytes.hexDigit (c.toNat / 16), Bytes.hexDigit (c.toNat % 16)]
  /-- Any other character as it is. -/
  | plain {c : Char} (hcontrol : 32 ≤ c.toNat) (hquote : c ≠ '"') (hslash : c ≠ '\\') :
      Escape c [c]

/-- A character is written in one of these ways. -/
theorem escape_escapeChar (c : Char) : Escape c (escapeChar c) := by
  have hshort {d : Char} (hd : d ∈ ['"', '\\', 'b', 'f', 'n', 'r', 't'])
      (hc : c = shortEscape d) : Escape c ['\\', d] := hc ▸ Escape.short hd
  unfold escapeChar
  split
  · next hc => exact hshort (by decide) hc
  · next hquote =>
    split
    · next hc => exact hshort (by decide) hc
    · next hslash =>
      iterate 5
        split
        · next hc => exact hshort (by decide) hc
      split
      · next hcontrol => exact .unit hcontrol
      · next hcontrol => exact .plain (Nat.not_lt.mp hcontrol) hquote hslash

/-- An escaped character is kept. -/
theorem passes_escapeChar (c : Char) : Passes (Utf8.ofChars (escapeChar c)) := by
  have hescape := escape_escapeChar c
  generalize escapeChar c = written at hescape ⊢
  cases hescape with
  | @short d hd =>
    have hall : (['"', '\\', 'b', 'f', 'n', 'r', 't'].all fun d =>
        d.toNat < 128 ∧ isShortEscape (UInt8.ofNat d.toNat)) = true := by decide
    obtain ⟨hascii, hallowed⟩ := of_decide_eq_true (List.all_eq_true.mp hall d hd)
    have hbytes : Utf8.ofChars ['\\', d] = [0x5c, UInt8.ofNat d.toNat] := by
      rw [Utf8.ofChars_cons, Utf8.ofChars_cons, Utf8.utf8EncodeChar_of_ascii hascii]
      rfl
    rw [hbytes]
    exact passes_short hallowed
  | unit hcontrol =>
    obtain ⟨⟨high, hhigh, hhighValue⟩, -⟩ := hexDigit_spec (show c.toNat / 16 < 16 by omega)
    obtain ⟨⟨low, hlow, hlowValue⟩, -⟩ := hexDigit_spec (Nat.mod_lt c.toNat (show 0 < 16 by decide))
    have hbytes : Utf8.ofChars
        ['\\', 'u', '0', '0', Bytes.hexDigit (c.toNat / 16), Bytes.hexDigit (c.toNat % 16)] =
          [0x5c, 0x75, 0x30, 0x30, high, low] := by
      simp only [Utf8.ofChars_cons, hhigh, hlow]
      rfl
    have hzero : (hexValue? 0x30).isSome = true := by decide
    rw [hbytes]
    refine passes_unit ?_
    simp only [List.all_cons, List.all_nil, hzero, hhighValue, hlowValue, Bool.and_self]
  | plain hcontrol hquote hslash =>
    rw [Utf8.ofChars_cons]
    exact (passes_utf8EncodeChar hcontrol hquote hslash).append passes_nil

/-- The content of a string is read up to its closing quotation mark. -/
theorem content?_escaped (chars : List Char) (rest : Bytes) :
    content? (Utf8.ofChars (chars.flatMap escapeChar) ++ 0x22 :: rest) =
      some (Utf8.ofChars (chars.flatMap escapeChar), rest) := by
  have hpasses : Passes (Utf8.ofChars (chars.flatMap escapeChar)) := by
    induction chars with
    | nil => exact passes_nil
    | cons c chars ih =>
      rw [List.flatMap_cons, Utf8.ofChars_append]
      exact (passes_escapeChar c).append ih
  rw [hpasses]
  simp [content?]

/-- An escape with four digits that is no half of a surrogate pair stands for one character. -/
theorem unescape?_unit {h₁ h₂ h₃ h₄ : Char} {rest : List Char}
    (h : unit h₁ h₂ h₃ h₄ < 0xd800) :
    unescape? ('\\' :: 'u' :: h₁ :: h₂ :: h₃ :: h₄ :: rest) =
      (unescape? rest).map (Char.ofNat (unit h₁ h₂ h₃ h₄) :: ·) := by
  have hfirst : ¬ (0xd800 ≤ unit h₁ h₂ h₃ h₄ ∧ unit h₁ h₂ h₃ h₄ < 0xdc00) := by omega
  have hsecond : ¬ (0xdc00 ≤ unit h₁ h₂ h₃ h₄ ∧ unit h₁ h₂ h₃ h₄ < 0xe000) := by omega
  have halone : ¬ (0xd800 ≤ unit h₁ h₂ h₃ h₄ ∧ unit h₁ h₂ h₃ h₄ < 0xe000) := by omega
  by_cases hnext : ∃ e f g h after, rest = '\\' :: 'u' :: e :: f :: g :: h :: after
  · obtain ⟨e, f, g, h, after, rfl⟩ := hnext
    rw [unescape?, if_neg hfirst, if_neg hsecond]
  · rw [unescape?]
    · rw [if_neg halone]
    · rintro e f g h after rfl
      exact hnext ⟨e, f, g, h, after, rfl⟩

/-- An escaped character is read back. -/
theorem unescape?_escapeChar (c : Char) (rest : List Char) :
    unescape? (escapeChar c ++ rest) = (unescape? rest).map (c :: ·) := by
  have hescape := escape_escapeChar c
  generalize escapeChar c = written at hescape ⊢
  cases hescape with
  | @short d hd =>
    have hne : d ≠ 'u' := by
      rintro rfl
      exact absurd hd (by decide)
    show unescape? ('\\' :: d :: rest) = _
    rw [unescape?]
    · rintro _ _ _ _ _ _ _ _ _ ⟨⟩
      exact absurd rfl hne
    · rintro _ _ _ _ _ ⟨⟩
      exact absurd rfl hne
  | unit hcontrol =>
    obtain ⟨-, hhigh⟩ := hexDigit_spec (show c.toNat / 16 < 16 by omega)
    obtain ⟨-, hlow⟩ := hexDigit_spec (Nat.mod_lt c.toNat (show 0 < 16 by decide))
    have hunit : unit '0' '0' (Bytes.hexDigit (c.toNat / 16)) (Bytes.hexDigit (c.toNat % 16)) =
        c.toNat := by
      have hzero : Bytes.hexValue? '0' = some 0 := by decide
      simp only [unit, List.foldl_cons, List.foldl_nil, hzero, hhigh, hlow, Option.getD_some]
      omega
    show unescape? ('\\' :: 'u' :: '0' :: '0' :: Bytes.hexDigit (c.toNat / 16) ::
      Bytes.hexDigit (c.toNat % 16) :: rest) = _
    rw [unescape?_unit (by omega), hunit, Char.ofNat_toNat]
  | plain hcontrol hquote hslash =>
    rw [List.singleton_append, unescape?]
    · rintro _ _ _ _ _ _ _ _ _ ⟨⟩
      exact absurd rfl hslash
    · rintro _ _ _ _ _ ⟨⟩
      exact absurd rfl hslash
    · rintro _ _ ⟨⟩
      exact absurd rfl hslash

/-- What is escaped is read back. -/
theorem unescape?_escaped (chars : List Char) :
    unescape? (chars.flatMap escapeChar) = some chars := by
  induction chars with
  | nil => rfl
  | cons c chars ih =>
    rw [List.flatMap_cons, unescape?_escapeChar, ih]
    rfl

/-- A written string is read back, whatever follows. -/
theorem string?_writeString (s : String) (rest : Bytes) :
    string? (Utf8.ofChars (s.toList.flatMap escapeChar ++ ['"']) ++ rest) =
      some (some s, rest) := by
  have hbytes : Utf8.ofChars (s.toList.flatMap escapeChar ++ ['"']) ++ rest =
      Utf8.ofChars (s.toList.flatMap escapeChar) ++ 0x22 :: rest := by
    rw [Utf8.ofChars_append, List.append_assoc]
    rfl
  have htext : contentText? (Utf8.ofChars (s.toList.flatMap escapeChar)) = some s := by
    unfold contentText?
    rw [← Utf8.encode_ofList, Utf8.decode_encode]
    dsimp only
    rw [String.toList_ofList, unescape?_escaped, Option.map_some, String.ofList_toList]
  unfold string?
  rw [hbytes, content?_escaped, ← htext]
  rfl

end TripArchive.Json.Raw
