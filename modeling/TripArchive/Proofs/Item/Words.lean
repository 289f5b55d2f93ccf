import TripArchive.Proofs.Item.Groups

/-!
# Numbers in words

On words of sixty-four bits, the sign of a number is folded into its lowest bit by two shifts, and
groups are taken out of a word and put into one by shifts and masks. That is the arithmetic by which
numbers are written and read (`write_toInt`, `read_eq_readWord`), and it loses nothing on the way
there and back, from the least word to the greatest (`words_round_trip`).
-/

namespace TripArchive.Varint

variable {bytes : Bytes} {word : UInt64} {m place : Nat}

/-! ### Masks -/

/-- There are bits above the lowest seven exactly from 128 on. -/
theorem and_not_group_eq_zero_iff {width : Nat} {group : BitVec width} (hgroup : group.toNat = 127)
    (bits : BitVec width) : bits &&& ~~~group = 0 ↔ bits.toNat < 128 := by
  have hparts : (bits &&& group) ||| (bits &&& ~~~group) = bits := by
    rw [← BitVec.and_or_distrib_left, BitVec.or_not_self, BitVec.and_allOnes]
  have hlow : (bits &&& group).toNat = bits.toNat % 128 := by
    rw [BitVec.toNat_and, hgroup]
    exact Nat.and_two_pow_sub_one_eq_mod _ 7
  constructor
  · intro h
    have hall : bits &&& group = bits := by
      rw [h] at hparts
      exact BitVec.or_zero.symm.trans hparts
    rw [hall] at hlow
    omega
  · intro h
    have hall : bits &&& group = bits :=
      BitVec.eq_of_toNat_eq (hlow.trans (Nat.mod_eq_of_lt h))
    rw [← hall, BitVec.and_assoc, BitVec.and_not_self]
    exact BitVec.and_zero

/-- A word has one group exactly if it is below 128. -/
theorem higher_eq_zero_iff (word : UInt64) : word &&& ~~~0x7f = 0 ↔ word.toNat < 128 :=
  UInt64.toBitVec_inj.symm.trans (and_not_group_eq_zero_iff (by decide) word.toBitVec)

/-- A byte has no mark exactly if it is below 128. -/
theorem mark_eq_zero_iff (b : UInt8) : b &&& 0x80 = 0 ↔ b.toNat < 128 := by
  have hgroup : (0x7f : BitVec 8).toNat = 127 := rfl
  exact UInt8.toBitVec_inj.symm.trans (and_not_group_eq_zero_iff hgroup b.toBitVec)

/-- The lowest group of a word is its remainder by 128. -/
theorem toNat_and_group (word : UInt64) : (word &&& 0x7f).toNat = word.toNat % 128 := by
  rw [UInt64.toNat_and]
  exact Nat.and_two_pow_sub_one_eq_mod _ 7

/-- What is above the lowest group of a word is its quotient by 128. -/
theorem toNat_shiftRight_group (word : UInt64) : (word >>> 7).toNat = word.toNat / 128 := by
  rw [UInt64.toNat_shiftRight]
  exact Nat.shiftRight_eq_div_pow _ _

/-! ### The sign -/

/-- The sign of a word in its lowest bit: the word is shifted left, and inverted if it is
negative. -/
def foldSign (word : Int64) : UInt64 := ((word <<< 1) ^^^ (word >>> 63)).toUInt64

/-- The word whose sign is in the lowest bit. -/
def unfoldSign (word : UInt64) : Int64 := (word >>> 1).toInt64 ^^^ -(word &&& 1).toInt64

/-- Shifted to the end with its sign, a word has only bits of its sign. -/
theorem sshiftRight_sign (bits : BitVec 64) :
    bits.sshiftRight 63 = if 2 ^ 63 ≤ bits.toNat then BitVec.allOnes 64 else 0#64 := by
  have hlt := bits.isLt
  apply BitVec.eq_of_toNat_eq
  rw [BitVec.toNat_sshiftRight, BitVec.msb_eq_decide, Nat.shiftRight_eq_div_pow,
    Nat.shiftRight_eq_div_pow]
  by_cases hsign : 2 ^ 63 ≤ bits.toNat
  · rw [if_pos (decide_eq_true hsign), if_pos hsign, BitVec.toNat_allOnes]
    omega
  · rw [if_neg (by rw [decide_eq_true_iff]; exact hsign), if_neg hsign]
    exact Nat.div_eq_of_lt (by omega)

/-- Folding the sign of a word gives the unsigned form of its number. -/
theorem toNat_foldSign (word : Int64) : (foldSign word).toNat = zigzag word.toInt := by
  have hlt := word.toBitVec.isLt
  have hint : word.toInt = word.toBitVec.toInt := rfl
  have hfold : (foldSign word).toNat =
      (word.toBitVec <<< 1 ^^^ word.toBitVec.sshiftRight 63).toNat := rfl
  have hleft : (word.toBitVec <<< 1).toNat = word.toBitVec.toNat * 2 % 2 ^ 64 := by
    rw [BitVec.toNat_shiftLeft, Nat.shiftLeft_eq, Nat.pow_one]
  rw [hfold, hint, BitVec.toInt_eq_toNat_cond, sshiftRight_sign]
  by_cases hsign : 2 ^ 63 ≤ word.toBitVec.toNat
  · have hnegative : ¬ 0 ≤ (word.toBitVec.toNat : Int) - (2 ^ 64 : Nat) := by omega
    rw [if_pos hsign, if_neg (by omega), BitVec.xor_allOnes, BitVec.toNat_not, hleft, zigzag,
      if_neg hnegative]
    omega
  · rw [if_neg hsign, if_pos (by omega), BitVec.xor_zero, hleft, zigzag, if_pos (by omega)]
    omega

/-- Unfolding the sign of a word gives the number for which the word stands. -/
theorem toInt_unfoldSign (word : UInt64) : (unfoldSign word).toInt = unzigzag word.toNat := by
  have hlt := word.toNat_lt
  have hunfold : (unfoldSign word).toInt =
      (word.toBitVec >>> 1 ^^^ -(word.toBitVec &&& 1#64)).toInt := rfl
  have hright : (word.toBitVec >>> 1).toNat = word.toNat / 2 := by
    rw [BitVec.toNat_ushiftRight, Nat.shiftRight_eq_div_pow]
    rfl
  have hlow : (word.toBitVec &&& 1#64).toNat = word.toNat % 2 := by
    rw [BitVec.toNat_and]
    exact Nat.and_two_pow_sub_one_eq_mod _ 1
  rw [hunfold, unzigzag]
  split
  · next heven =>
    have hzero : word.toBitVec &&& 1#64 = 0#64 := BitVec.eq_of_toNat_eq (hlow.trans heven)
    rw [hzero, BitVec.neg_zero, BitVec.xor_zero, BitVec.toInt_eq_toNat_cond, hright,
      if_pos (by omega)]
  · next hodd =>
    have hone : word.toBitVec &&& 1#64 = 1#64 :=
      BitVec.eq_of_toNat_eq (hlow.trans (Nat.mod_two_ne_zero.mp hodd))
    rw [hone, BitVec.neg_one_eq_allOnes, BitVec.xor_allOnes, BitVec.toInt_eq_toNat_cond,
      BitVec.toNat_not, hright, if_neg (by omega)]
    omega

/-! ### Groups -/

/-- Takes groups out of a word until it has one. -/
def writeWord (word : UInt64) : Bytes :=
  if word &&& ~~~0x7f = 0 then [word.toUInt8]
  else ((word &&& 0x7f) ||| 0x80).toUInt8 :: writeWord (word >>> 7)
  termination_by word.toNat
  decreasing_by
    rename_i hlarge
    rw [higher_eq_zero_iff] at hlarge
    rw [toNat_shiftRight_group]
    omega

/-- Puts groups into a word from the given shift on. -/
def readWord (word : UInt64) (shift : Nat) : Bytes → Except Fault (UInt64 × Bytes)
  | [] => .error .truncated
  | b :: rest =>
    if 63 < shift then .error .overflow
    else
      let word := word ||| (b &&& 0x7f).toUInt64 <<< UInt64.ofNat shift
      if b &&& 0x80 = 0 then .ok (word, rest) else readWord word (shift + 7) rest

/-- A marked group is a group and the mark. -/
theorem toUInt8_marked (word : UInt64) :
    ((word &&& 0x7f) ||| 0x80).toUInt8 = UInt8.ofNat (word.toNat % 128 + 128) := by
  have hmark : word.toNat % 128 ||| 2 ^ 7 * 1 = word.toNat % 128 + 128 := by
    rw [Nat.or_comm, ← Nat.two_pow_add_eq_or_of_lt (Nat.mod_lt _ (by decide)), Nat.add_comm]
  apply UInt8.toNat_inj.mp
  rw [UInt64.toNat_toUInt8, UInt64.toNat_or, toNat_and_group]
  exact congrArg (· % 2 ^ 8) hmark

/-- Groups are taken out of a word as they are out of its number. -/
theorem writeWord_eq (word : UInt64) : writeWord word = writeGroups word.toNat := by
  induction hm : word.toNat using Nat.strongRecOn generalizing word with
  | ind m ih =>
    subst hm
    rw [writeWord, writeGroups]
    simp only [higher_eq_zero_iff]
    split
    · rfl
    · next hlarge =>
      have hless : (word >>> 7).toNat < word.toNat := by
        rw [toNat_shiftRight_group]
        omega
      rw [ih _ hless _ rfl, toNat_shiftRight_group, toUInt8_marked]

/-- Bits above those of a number are put to it as they are added. -/
theorem or_mod_span {low bits : Nat} (hlow : low < span bits) (hbits : bits ≤ 64) (group : Nat) :
    low ||| group * span bits % span 64 = low + group * span bits % span 64 := by
  have hput : span bits * (group % span (64 - bits)) + low =
      span bits * (group % span (64 - bits)) ||| low := Nat.two_pow_add_eq_or_of_lt hlow _
  rw [mul_span_mod hbits, Nat.or_comm, ← hput, Nat.add_comm]

/-- A group is put into a word above the lower ones as it is added to them. Its bits above the
sixty-fourth are shifted out. -/
theorem toNat_put_group (hword : word.toNat < span (7 * place)) (hplace : place ≤ 9) (b : UInt8) :
    (word ||| (b &&& 0x7f).toUInt64 <<< UInt64.ofNat (7 * place)).toNat =
      word.toNat + b.toNat % 128 * span (7 * place) % span 64 := by
  have hgroup : (b &&& 0x7f).toNat = b.toNat % 128 := by
    rw [UInt8.toNat_and]
    exact Nat.and_two_pow_sub_one_eq_mod _ 7
  have hshift : (UInt64.ofNat (7 * place)).toNat % 64 = 7 * place := by
    rw [UInt64.toNat_ofNat']
    omega
  rw [UInt64.toNat_or, UInt64.toNat_shiftLeft, UInt8.toNat_toUInt64, hgroup, hshift,
    Nat.shiftLeft_eq]
  exact or_mod_span hword (by omega) _

/-- Groups are put into a word as they are added to its number. -/
theorem readWord_eq (hword : word.toNat < span (7 * place)) (hplace : place ≤ 10) :
    readWord word (7 * place) bytes =
      (readGroups (7 * place) bytes).map fun found =>
        (UInt64.ofNat (word.toNat + found.1), found.2) := by
  -- The word stays below the span of the places that are read, so nothing is put over its bits.
  induction bytes generalizing word place with
  | nil => rfl
  | cons b bytes ih =>
    rw [readWord, readGroups]
    split
    · rfl
    · next hshift =>
      have hput := toNat_put_group hword (by omega) b
      simp only [mark_eq_zero_iff]
      generalize word ||| (b &&& 0x7f).toUInt64 <<< UInt64.ofNat (7 * place) = put at hput ⊢
      split
      · rw [Except.map, ← hput, UInt64.ofNat_toNat]
      · next hmarked =>
        have hgroup : b.toNat % 128 * span (7 * place) % span 64 ≤ 127 * span (7 * place) :=
          (Nat.mod_le _ _).trans (Nat.mul_le_mul_right _ (by omega))
        have hnext : put.toNat < span (7 * (place + 1)) := by
          rw [hput, Nat.mul_succ, span_add_seven (7 * place)]
          omega
        have hrest := ih hnext (by omega)
        rw [Nat.mul_succ, hput] at hrest
        rw [hrest]
        cases readGroups (7 * place + 7) bytes with
        | error fault => rfl
        | ok found => simp only [Except.map, Nat.add_assoc]

/-- What is read is the word that the groups make, with its sign unfolded. -/
theorem read_eq_readWord (bytes : Bytes) :
    read bytes = (readWord 0 0 bytes).map fun found => ((unfoldSign found.1).toInt, found.2) := by
  have hzero : (0 : UInt64).toNat < span (7 * 0) := by decide
  have hword : readWord 0 0 bytes = _ := readWord_eq hzero (by decide)
  rw [hword, read]
  cases hgroups : readGroups 0 bytes with
  | error fault => rfl
  | ok found =>
    obtain ⟨number, _, _, _, hnumber⟩ := readGroups_zero_eq_ok_iff.mp hgroups
    have hfits : (UInt64.ofNat found.1).toNat = found.1 :=
      UInt64.toNat_ofNat_of_lt' (hnumber ▸ Nat.mod_lt _ (by decide))
    simp only [Except.map, UInt64.toNat_zero, Nat.zero_add, toInt_unfoldSign, hfits]

/-- What is written is the groups of the word with its sign folded. -/
theorem write_toInt (word : Int64) : write word.toInt = writeWord (foldSign word) := by
  rw [writeWord_eq, toNat_foldSign, write]

/-! ### There and back -/

/-- Groups that are written are a number. -/
theorem isNumber_writeGroups (m : Nat) : IsNumber (writeGroups m) := by
  induction m using Nat.strongRecOn with
  | ind m ih =>
    rw [writeGroups]
    split
    · next hsmall =>
      refine .last ?_
      rw [UInt8.toNat_ofNat']
      omega
    · next hlarge =>
      refine .more ?_ (ih (m / 128) (by omega))
      rw [UInt8.toNat_ofNat']
      omega

/-- A number takes as many groups as it has digits to the base 128. -/
theorem length_writeGroups_le {count : Nat} (h : m < 128 ^ (count + 1)) :
    (writeGroups m).length ≤ count + 1 := by
  induction count generalizing m with
  | zero =>
    rw [writeGroups, if_pos (by omega)]
    rfl
  | succ count ih =>
    rw [writeGroups]
    split
    · exact Nat.succ_le_succ (Nat.zero_le _)
    · have hquotient : m / 128 < 128 ^ (count + 1) := by
        rw [Nat.div_lt_iff_lt_mul (by decide), ← Nat.pow_succ]
        exact h
      exact Nat.succ_le_succ (ih hquotient)

/-- A word takes at most ten bytes. -/
theorem length_write_le (word : Int64) : (write word.toInt).length ≤ 10 := by
  have hlt := (foldSign word).toNat_lt
  rw [toNat_foldSign] at hlt
  exact length_writeGroups_le (hlt.trans (by decide))

/-- The number of a word has sixty-four bits. -/
theorem isInt64_toInt (word : Int64) : IsInt64 word.toInt := by
  have hleast := word.le_toInt
  have hmost := word.toInt_lt
  unfold IsInt64 minInt64 maxInt64
  omega

/-- Every word is written in one to ten bytes, which are the groups that shifts and masks take out
of it. They are read back at any place behind any bytes and before any others, up to where they end.
A beginning of them that is not all of them is refused for ending too early. -/
theorem words_round_trip (word : Int64) :
    write word.toInt = writeWord (foldSign word) ∧
      1 ≤ (write word.toInt).length ∧ (write word.toInt).length ≤ 10 ∧
      (∀ front rest, readAt (front ++ write word.toInt ++ rest) front.length =
        .ok (word.toInt, (front ++ write word.toInt).length)) ∧
      ∀ front short, short <+: write word.toInt → short ≠ write word.toInt →
        readAt (front ++ short) front.length = .error .truncated := by
  have hnumber : IsNumber (write word.toInt) := isNumber_writeGroups _
  refine ⟨write_toInt word, hnumber.length_pos, length_write_le word, ?_, ?_⟩
  · intro front rest
    have hread := read_write (isInt64_toInt word) rest
    have hnext : (front ++ (write word.toInt ++ rest)).length - rest.length =
        (front ++ write word.toInt).length := by
      rw [← List.append_assoc, List.length_append, Nat.add_sub_cancel]
    rw [readAt, List.append_assoc, List.drop_left, hread, ← hnext]
    rfl
  · intro front short hshort hless
    have hgroups := readGroups_zero_marked (hnumber.marked_of_isPrefix hshort hless)
    have hlength := hshort.length_le.trans (length_write_le word)
    rw [readAt, List.drop_left, read, hgroups, if_pos hlength]
    rfl

/-- The least word is written in ten bytes and read back between other bytes, and nine of its bytes
are too few. -/
theorem least_word_round_trips :
    write Int64.minValue.toInt = List.replicate 9 0xff ++ [1] ∧
      readAt ([2] ++ write Int64.minValue.toInt ++ [0xff]) 1 = .ok (minInt64, 11) ∧
      List.replicate 9 0xff <+: write Int64.minValue.toInt ∧
      List.replicate 9 0xff ≠ write Int64.minValue.toInt ∧
      readAt ([2] ++ List.replicate 9 0xff) 1 = .error .truncated := by
  have hform : zigzag Int64.minValue.toInt = 18446744073709551615 := by decide
  have hwritten : write Int64.minValue.toInt = List.replicate 9 0xff ++ [1] := by
    rw [write, hform]
    simp [writeGroups]
  obtain ⟨_, _, _, hback, hshort⟩ := words_round_trip Int64.minValue
  have hprefix : List.replicate 9 0xff <+: write Int64.minValue.toInt := hwritten ▸ ⟨[1], rfl⟩
  have hless : List.replicate 9 0xff ≠ write Int64.minValue.toInt := by
    rw [hwritten]
    decide
  refine ⟨hwritten, (hback [2] [0xff]).trans ?_, hprefix, hless, hshort [2] _ hprefix hless⟩
  rw [hwritten]
  rfl

end TripArchive.Varint
