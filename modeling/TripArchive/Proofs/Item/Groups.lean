import TripArchive.Item.Varint
import TripArchive.Proofs.Except
import Mathlib.Data.Nat.Digits.Defs

/-!
# The groups of a number

A number in the bytes is told by its marks: all bytes of it have one but the last. Its groups are
the digits of an exact number, of which reading keeps the sixty-four lowest bits. A number of more
than ten bytes is refused. Ten groups have six bits more than that, and these are lost where the
tenth byte is above one (`bits_lost_in_tenth_byte`).
-/

namespace TripArchive.Varint

variable {bytes number front tail rest : Bytes} {b : UInt8} {n : Int} {place next : Nat}

/-- The bytes of one number: all of them are marked but the last. -/
inductive IsNumber : Bytes → Prop
  | last {b : UInt8} (hlast : b.toNat < 128) : IsNumber [b]
  | more {b : UInt8} {rest : Bytes} (hmarked : ¬ b.toNat < 128) (hrest : IsNumber rest) :
    IsNumber (b :: rest)

/-- The exact number that groups spell, whatever its size: they are its digits to the base 128, from
the lowest on. -/
def value (bytes : Bytes) : Nat := Nat.ofDigits 128 (bytes.map fun b => b.toNat % 128)

/-- Reads the number at a place of the bytes and gives the place behind it. -/
def readAt (bytes : Bytes) (place : Nat) : Except Fault (Int × Nat) :=
  (read (bytes.drop place)).map fun found => (found.1, bytes.length - found.2.length)

/-! ### Marks and values -/

/-- Marked bytes before one without the mark are a number. -/
theorem isNumber_concat (hfront : ∀ c ∈ front, ¬ c.toNat < 128) (hlast : b.toNat < 128) :
    IsNumber (front ++ [b]) := by
  induction front with
  | nil => exact .last hlast
  | cons c front ih =>
    obtain ⟨hmarked, hrest⟩ := List.forall_mem_cons.mp hfront
    exact .more hmarked (ih hrest)

/-- The same marked byte some times before one without the mark is a number. -/
theorem isNumber_replicate {c : UInt8} (hmarked : ¬ c.toNat < 128) (hlast : b.toNat < 128)
    (count : Nat) : IsNumber (List.replicate count c ++ [b]) :=
  isNumber_concat (fun _ hc => List.eq_of_mem_replicate hc ▸ hmarked) hlast

/-- A number ends with its only byte without the mark. -/
theorem IsNumber.exists_last (h : IsNumber number) :
    ∃ front b, number = front ++ [b] ∧ (∀ c ∈ front, ¬ c.toNat < 128) ∧ b.toNat < 128 := by
  induction h with
  | @last b hlast => exact ⟨[], b, rfl, nofun, hlast⟩
  | @more c rest hmarked _ ih =>
    obtain ⟨front, b, rfl, hfront, hlast⟩ := ih
    exact ⟨c :: front, b, rfl, List.forall_mem_cons.mpr ⟨hmarked, hfront⟩, hlast⟩

/-- A number has at least one byte. -/
theorem IsNumber.length_pos (h : IsNumber number) : 0 < number.length := by
  cases h <;> exact Nat.succ_pos _

/-- A beginning of a number that is not all of it has marked bytes only. -/
theorem IsNumber.marked_of_isPrefix (h : IsNumber number) (hfront : front <+: number)
    (hshort : front ≠ number) : ∀ c ∈ front, ¬ c.toNat < 128 := by
  obtain ⟨marked, b, rfl, hmarked, _⟩ := h.exists_last
  rcases List.prefix_concat_iff.mp hfront with hall | hbefore
  · exact absurd hall hshort
  · exact fun c hc => hmarked c (hbefore.subset hc)

/-- Bytes begin with a number, or all of them are marked. -/
theorem exists_number (bytes : Bytes) :
    (∃ number rest, IsNumber number ∧ bytes = number ++ rest) ∨ ∀ b ∈ bytes, ¬ b.toNat < 128 := by
  induction bytes with
  | nil => exact Or.inr nofun
  | cons b bytes ih =>
    by_cases hlast : b.toNat < 128
    · exact Or.inl ⟨[b], bytes, .last hlast, rfl⟩
    · rcases ih with ⟨number, rest, hnumber, rfl⟩ | hmarked
      · exact Or.inl ⟨b :: number, rest, .more hlast hnumber, rfl⟩
      · exact Or.inr (List.forall_mem_cons.mpr ⟨hlast, hmarked⟩)

/-- The first group is the lowest digit. -/
theorem value_cons (b : UInt8) (rest : Bytes) :
    value (b :: rest) = b.toNat % 128 + 128 * value rest :=
  Nat.ofDigits_cons

/-- Groups behind others count for as many times more as those can tell apart. -/
theorem value_append (front tail : Bytes) :
    value (front ++ tail) = value front + 128 ^ front.length * value tail := by
  unfold value
  rw [List.map_append, Nat.ofDigits_append, List.length_map]

/-- Groups have seven bits each. -/
theorem value_lt (bytes : Bytes) : value bytes < 128 ^ bytes.length := by
  unfold value
  have hdigits : ∀ digit ∈ bytes.map fun b => b.toNat % 128, digit < 128 := by
    intro digit hdigit
    obtain ⟨b, _, rfl⟩ := List.mem_map.mp hdigit
    exact Nat.mod_lt _ (by decide)
  have hlt := Nat.ofDigits_lt_base_pow_length (by decide) hdigits
  rwa [List.length_map] at hlt

/-- Ten groups fit sixty-four bits exactly if the tenth byte is at most one. Fewer do anyway. -/
theorem value_lt_span_iff (h : IsNumber number) (hlength : number.length ≤ 10) :
    value number < span 64 ↔ ∀ b, number[9]? = some b → b.toNat ≤ 1 := by
  have hspan : span 64 = 2 * 128 ^ 9 := by decide
  obtain ⟨front, b, rfl, _, hlast⟩ := h.exists_last
  rw [List.length_append, List.length_singleton] at hlength
  by_cases hshort : front.length < 9
  · have hvalue := value_lt (front ++ [b])
    have hfew : (front ++ [b]).length ≤ 9 := by
      rw [List.length_append, List.length_singleton]
      omega
    have hmost : 128 ^ (front ++ [b]).length ≤ 128 ^ 9 := Nat.pow_le_pow_right (by decide) hfew
    rw [List.getElem?_eq_none hfew]
    exact ⟨fun _ => nofun, fun _ => by omega⟩
  · have hnine : front.length = 9 := by omega
    have htenth : (front ++ [b])[9]? = some b := by
      rw [← hnine]
      simp
    have hvalue : value (front ++ [b]) = value front + 128 ^ 9 * b.toNat := by
      rw [value_append, hnine]
      simp [value, Nat.mod_eq_of_lt hlast]
    have hfront : value front < 128 ^ 9 := hnine ▸ value_lt front
    rw [htenth, hvalue]
    constructor
    · rintro hlt _ ⟨⟩
      omega
    · intro hone
      have := hone b rfl
      omega

/-! ### What reading does -/

/-- What is kept of a number that is moved up are as many of its lowest bits as there is room
for. -/
theorem mul_span_mod {bits : Nat} (hbits : bits ≤ 64) (m : Nat) :
    m * span bits % span 64 = span bits * (m % span (64 - bits)) := by
  have hspan : span 64 = span bits * span (64 - bits) := by
    have hsum : 64 = bits + (64 - bits) := by omega
    conv_lhs => rw [hsum]
    exact Nat.pow_add _ _ _
  rw [hspan, Nat.mul_comm m, Nat.mul_mod_mul_left]

/-- A group is added to the higher ones of a number where no more than sixty-four bits are kept. -/
theorem group_add_mod {group higher : Nat} (hgroup : group < 128) (hroom : place ≤ 8) :
    group * span (7 * place) % span 64 + higher * span (7 * (place + 1)) % span 64 =
      (group + 128 * higher) * span (7 * place) % span 64 := by
  generalize habove : span (64 - 7 * (place + 1)) = above
  have hroomAbove : span (64 - 7 * place) = 128 * above := by
    have hbits : 64 - 7 * place = 64 - 7 * (place + 1) + 7 := by omega
    rw [hbits, span_add_seven, habove]
  have hnext : span (7 * (place + 1)) = span (7 * place) * 128 := by
    rw [Nat.mul_succ, span_add_seven, Nat.mul_comm]
  have hsome : 0 < above := habove ▸ Nat.pow_pos (by decide)
  have hlow : group % (128 * above) = group := Nat.mod_eq_of_lt (by omega)
  have hsum : (group + 128 * higher) % (128 * above) = group + 128 * (higher % above) := by
    have hfirst : (group + 128 * higher) % 128 = group := by omega
    have hrest : (group + 128 * higher) / 128 = higher := by omega
    rw [Nat.mod_mul, hfirst, hrest]
  -- With the span of the lower places taken out, it is a sum of digits to the base 128.
  calc group * span (7 * place) % span 64 + higher * span (7 * (place + 1)) % span 64
      = span (7 * place) * group + span (7 * place) * 128 * (higher % above) := by
        rw [mul_span_mod (by omega), mul_span_mod (by omega), hroomAbove, habove, hlow, hnext]
    _ = span (7 * place) * (group + 128 * (higher % above)) := by
        rw [Nat.mul_add, Nat.mul_assoc]
    _ = (group + 128 * higher) * span (7 * place) % span 64 := by
        rw [mul_span_mod (by omega), hroomAbove, hsum]

/-- The groups of a number that ends by the tenth place are read, whatever follows them. -/
theorem readGroups_number (h : IsNumber number) (hroom : place + number.length ≤ 10)
    (rest : Bytes) :
    readGroups (7 * place) (number ++ rest) =
      .ok (value number * span (7 * place) % span 64, rest) := by
  induction h generalizing place with
  | @last b hlast =>
    rw [List.length_singleton] at hroom
    have hvalue : value [b] = b.toNat % 128 := Nat.ofDigits_singleton
    rw [List.singleton_append, readGroups, if_neg (by omega), if_pos hlast, hvalue]
  | @more b others hmarked hrest ih =>
    have hpos := hrest.length_pos
    rw [List.length_cons] at hroom
    rw [List.cons_append, readGroups, if_neg (by omega), if_neg hmarked]
    have hothers := ih (show place + 1 + others.length ≤ 10 by omega)
    rw [Nat.mul_succ] at hothers
    simp only [hothers, value_cons]
    rw [← group_add_mod (Nat.mod_lt _ (by decide)) (by omega)]
    rfl

/-- Groups that go on behind the tenth place are refused. -/
theorem readGroups_long (h : IsNumber number) (hplace : place ≤ 10)
    (hlong : 10 < place + number.length) (rest : Bytes) :
    readGroups (7 * place) (number ++ rest) = .error .overflow := by
  induction h generalizing place with
  | @last b =>
    rw [List.length_singleton] at hlong
    rw [List.singleton_append, readGroups, if_pos (by omega)]
  | @more b others hmarked hrest ih =>
    rw [List.length_cons] at hlong
    rw [List.cons_append, readGroups]
    split
    · rfl
    · next hshift =>
      have hothers := ih (show place + 1 ≤ 10 by omega) (by omega)
      rw [Nat.mul_succ] at hothers
      simp only [hothers]

/-- Marked bytes alone are no number: they end too early, or there are too many of them. -/
theorem readGroups_marked (h : ∀ b ∈ bytes, ¬ b.toNat < 128) (hplace : place ≤ 10) :
    readGroups (7 * place) bytes =
      .error (if place + bytes.length ≤ 10 then .truncated else .overflow) := by
  induction bytes generalizing place with
  | nil => exact congrArg Except.error (if_pos hplace).symm
  | cons b bytes ih =>
    obtain ⟨hmarked, hrest⟩ := List.forall_mem_cons.mp h
    rw [readGroups, List.length_cons]
    split
    · next hshift => rw [if_neg (by omega)]
    · next hshift =>
      have hothers := ih hrest (show place + 1 ≤ 10 by omega)
      rw [Nat.mul_succ] at hothers
      simp only [hothers]
      rw [Nat.add_right_comm, Nat.add_assoc]

/-- The groups of a number are read up to sixty-four bits if there are at most ten, and refused if
there are more, whatever follows them. -/
theorem readGroups_zero_number (h : IsNumber number) (rest : Bytes) :
    readGroups 0 (number ++ rest) =
      if number.length ≤ 10 then .ok (value number % span 64, rest) else .error .overflow := by
  split
  · next hlength =>
    have hgroups := readGroups_number h (show 0 + number.length ≤ 10 by omega) rest
    have hone : span (7 * 0) = 1 := rfl
    rwa [hone, Nat.mul_one] at hgroups
  · next hlong => exact readGroups_long h (Nat.zero_le 10) (by omega) rest

/-- Marked bytes alone are refused. -/
theorem readGroups_zero_marked (h : ∀ b ∈ bytes, ¬ b.toNat < 128) :
    readGroups 0 bytes = .error (if bytes.length ≤ 10 then .truncated else .overflow) := by
  have hgroups := readGroups_marked h (Nat.zero_le 10)
  rwa [Nat.zero_add] at hgroups

/-- What groups make is a number at the beginning of the bytes, up to sixty-four bits. -/
theorem readGroups_zero_eq_ok_iff {m : Nat} :
    readGroups 0 bytes = .ok (m, rest) ↔ ∃ number, IsNumber number ∧ number.length ≤ 10 ∧
      bytes = number ++ rest ∧ m = value number % span 64 := by
  constructor
  · intro h
    rcases exists_number bytes with ⟨number, behind, hnumber, rfl⟩ | hmarked
    · rw [readGroups_zero_number hnumber] at h
      split at h
      · next hlength =>
        cases h
        exact ⟨number, hnumber, hlength, rfl, rfl⟩
      · cases h
    · rw [readGroups_zero_marked hmarked] at h
      cases h
  · rintro ⟨number, hnumber, hlength, rfl, rfl⟩
    rw [readGroups_zero_number hnumber, if_pos hlength]

/-- A number of at most ten bytes is read up to sixty-four bits, and a longer one is refused,
whatever follows it. -/
theorem read_number (h : IsNumber number) (rest : Bytes) :
    read (number ++ rest) =
      if number.length ≤ 10 then .ok (unzigzag (value number % span 64), rest)
      else .error .overflow := by
  rw [read, readGroups_zero_number h]
  by_cases hlength : number.length ≤ 10
  · rw [if_pos hlength, if_pos hlength]
  · rw [if_neg hlength, if_neg hlength]

/-- What is read stands for a number at the beginning of the bytes, up to sixty-four bits. -/
theorem exists_number_of_read (h : read bytes = .ok (n, rest)) :
    ∃ number, IsNumber number ∧ number.length ≤ 10 ∧ bytes = number ++ rest ∧
      n = unzigzag (value number % span 64) := by
  unfold read at h
  split at h
  · cases h
  · next hgroups =>
    cases h
    obtain ⟨number, hnumber, hlength, hbytes, rfl⟩ := readGroups_zero_eq_ok_iff.mp hgroups
    exact ⟨number, hnumber, hlength, hbytes, rfl⟩

/-- A number at a place is read as it is by itself, and the place behind it is given. -/
theorem readAt_number (h : IsNumber number) (hplace : number <+: bytes.drop place) :
    readAt bytes place =
      if number.length ≤ 10 then .ok (unzigzag (value number % span 64), place + number.length)
      else .error .overflow := by
  obtain ⟨rest, hrest⟩ := hplace
  have hlength := congrArg List.length hrest
  rw [List.length_append, List.length_drop] at hlength
  have hpos := h.length_pos
  have hnext : bytes.length - rest.length = place + number.length := by omega
  unfold readAt
  rw [← hrest, read_number h, ← hnext]
  split
  · rfl
  · rfl

/-- What is read has sixty-four bits. -/
theorem isInt64_of_read (h : read bytes = .ok (n, rest)) : IsInt64 n := by
  obtain ⟨number, _, _, _, rfl⟩ := exists_number_of_read h
  have hlt : value number % span 64 < 18446744073709551616 := Nat.mod_lt _ (by decide)
  unfold IsInt64 minInt64 maxInt64 unzigzag
  split <;> omega

/-- What is read at a place is a number there. -/
theorem exists_number_of_readAt (h : readAt bytes place = .ok (n, next)) :
    ∃ number, IsNumber number ∧ number <+: bytes.drop place ∧ next = place + number.length := by
  obtain ⟨⟨m, rest⟩, hread, _⟩ := map_eq_ok.mp h
  obtain ⟨number, hnumber, hlength, hbytes, _⟩ := exists_number_of_read hread
  have hplace : number <+: bytes.drop place := ⟨rest, hbytes.symm⟩
  rw [readAt_number hnumber hplace, if_pos hlength] at h
  cases h
  exact ⟨number, hnumber, hplace, rfl⟩

/-! ### Bits that are lost -/

/-- Every unsigned number is the form of the number it stands for. -/
theorem zigzag_unzigzag (m : Nat) : zigzag (unzigzag m) = m := by
  unfold zigzag unzigzag
  split <;> split <;> omega

/-- Different unsigned numbers stand for different numbers. -/
theorem unzigzag_inj {m m' : Nat} : unzigzag m = unzigzag m' ↔ m = m' := by
  refine ⟨fun h => ?_, congrArg unzigzag⟩
  rw [← zigzag_unzigzag m, h, zigzag_unzigzag]

/-- What is read at a place is a number there, and such a number is read unless it has more than ten
bytes: then it is refused. Reading keeps the sixty-four lowest bits of the exact number. These are
all of its bits exactly if there is no tenth byte or the tenth is at most one, and otherwise another
number is read than the one that the groups spell. -/
theorem bits_lost_in_tenth_byte (bytes : Bytes) (place : Nat) :
    (∀ n next, readAt bytes place = .ok (n, next) →
      ∃ number, IsNumber number ∧ number <+: bytes.drop place ∧ next = place + number.length) ∧
    ∀ number, IsNumber number → number <+: bytes.drop place →
      readAt bytes place =
        (if number.length ≤ 10 then .ok (unzigzag (value number % span 64), place + number.length)
        else .error .overflow) ∧
      (number.length ≤ 10 →
        (value number < span 64 ↔ ∀ b, number[9]? = some b → b.toNat ≤ 1) ∧
        (unzigzag (value number % span 64) = unzigzag (value number) ↔
          value number < span 64)) := by
  refine ⟨fun n next h => exists_number_of_readAt h, ?_⟩
  intro number hnumber hplace
  refine ⟨readAt_number hnumber hplace, fun hlength => ⟨value_lt_span_iff hnumber hlength, ?_⟩⟩
  rw [unzigzag_inj, Nat.mod_eq_iff_lt (by decide)]

/-- The groups of the number that stands for the least one of sixty-four bits. -/
def leastGroups : Bytes := List.replicate 9 0xff ++ [1]

/-- The least number is read between other bytes with all of its bits. -/
theorem least_number_read :
    IsNumber leastGroups ∧ leastGroups <+: ([2] ++ leastGroups ++ [0xff]).drop 1 ∧
      readAt ([2] ++ leastGroups ++ [0xff]) 1 = .ok (minInt64, 11) ∧
      value leastGroups < span 64 := by
  have hnumber : IsNumber leastGroups := isNumber_replicate (by decide) (by decide) 9
  have hplace : leastGroups <+: ([2] ++ leastGroups ++ [0xff]).drop 1 := ⟨[0xff], rfl⟩
  obtain ⟨hread, hkept⟩ := (bits_lost_in_tenth_byte _ _).2 _ hnumber hplace
  refine ⟨hnumber, hplace, hread.trans (by decide +kernel), ((hkept (by decide)).1).mpr ?_⟩
  rintro b ⟨⟩
  decide

/-- Nine groups of zero and a tenth of two, which is the sixty-fifth bit. -/
def sixtyFifthBit : Bytes := List.replicate 9 0x80 ++ [2]

/-- A number with the sixty-fifth bit only is read as zero, which is another number. -/
theorem sixty_fifth_bit_lost :
    IsNumber sixtyFifthBit ∧ value sixtyFifthBit = span 64 ∧
      readAt sixtyFifthBit 0 = .ok (0, sixtyFifthBit.length) ∧
      unzigzag (value sixtyFifthBit) ≠ 0 := by
  have hnumber : IsNumber sixtyFifthBit := isNumber_replicate (by decide) (by decide) 9
  have hvalue : value sixtyFifthBit = span 64 := by decide +kernel
  have hread : readAt sixtyFifthBit 0 = _ := readAt_number hnumber List.prefix_rfl
  rw [hvalue] at hread ⊢
  exact ⟨hnumber, rfl, hread.trans (by decide +kernel), by decide +kernel⟩

end TripArchive.Varint
