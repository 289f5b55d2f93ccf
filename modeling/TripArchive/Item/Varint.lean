import TripArchive.Bytes
import TripArchive.Number.Width

/-!
# Variable-length integers

A signed number of sixty-four bits is first mapped to an unsigned one, with the sign in the lowest
bit, and then written in groups of seven bits from the lowest, each but the last marked in the
highest bit of its byte. `read_write` says that reading undoes writing, whatever follows.
-/

namespace TripArchive.Varint

/-- Why a number cannot be read. -/
inductive Fault
  /-- The bytes end before a byte without the mark. -/
  | truncated
  /-- Ten bytes in a row carry the mark, and an eleventh follows. -/
  | overflow
  deriving DecidableEq, Repr

/-- The unsigned form: even for a number from zero on, odd for a negative one. -/
def zigzag (n : Int) : Nat := if 0 ≤ n then 2 * n.toNat else 2 * (-n).toNat - 1

/-- The signed number of an unsigned form. -/
def unzigzag (n : Nat) : Int := if n % 2 = 0 then (n / 2 : Nat) else -((n / 2 + 1 : Nat) : Int)

/-- The groups of an unsigned number. -/
def writeGroups (n : Nat) : Bytes :=
  if n < 128 then [UInt8.ofNat n] else UInt8.ofNat (n % 128 + 128) :: writeGroups (n / 128)
  termination_by n
  decreasing_by omega

/-- Writes a number. -/
def write (n : Int) : Bytes := writeGroups (zigzag n)

/-- Reads groups from the given shift on. What a group has above the sixty-fourth bit is lost. -/
def readGroups (shift : Nat) : Bytes → Except Fault (Nat × Bytes)
  | [] => .error .truncated
  | b :: rest =>
    if 63 < shift then .error .overflow
    else
      let group := b.toNat % 128 * span shift % span 64
      if b.toNat < 128 then .ok (group, rest)
      else
        match readGroups (shift + 7) rest with
        | .error fault => .error fault
        | .ok (higher, rest) => .ok (group + higher, rest)

/-- Reads a number and gives the bytes after it. -/
def read (bytes : Bytes) : Except Fault (Int × Bytes) :=
  match readGroups 0 bytes with
  | .error fault => .error fault
  | .ok (n, rest) => .ok (unzigzag n, rest)

theorem unzigzag_zigzag (n : Int) : unzigzag (zigzag n) = n := by
  unfold zigzag unzigzag
  split <;> split <;> omega

/-- Reading leaves fewer bytes. -/
theorem length_of_readGroups {shift : Nat} {bytes rest : Bytes} {n : Nat}
    (h : readGroups shift bytes = .ok (n, rest)) : rest.length < bytes.length := by
  induction bytes generalizing shift n rest with
  | nil => simp [readGroups] at h
  | cons b bytes ih =>
    simp only [readGroups] at h
    split at h
    · simp at h
    · split at h
      · simp only [Except.ok.injEq, Prod.mk.injEq] at h
        simp [← h.2]
      · split at h
        · simp at h
        · next higher rest' hread =>
          simp only [Except.ok.injEq, Prod.mk.injEq] at h
          have := ih hread
          simp only [List.length_cons, ← h.2]
          omega

/-- Reading a number leaves fewer bytes. -/
theorem length_of_read {bytes rest : Bytes} {n : Int} (h : read bytes = .ok (n, rest)) :
    rest.length < bytes.length := by
  unfold read at h
  split at h
  · simp at h
  · next m rest' hread =>
    simp only [Except.ok.injEq, Prod.mk.injEq] at h
    exact h.2 ▸ length_of_readGroups hread

/-- Seven more bits make the span 128 times as large. -/
theorem span_add_seven (bits : Nat) : span (bits + 7) = 128 * span bits := by
  show Nat.pow 2 bits * 2 * 2 * 2 * 2 * 2 * 2 * 2 = 128 * Nat.pow 2 bits
  omega

/-- A written number fits its groups from any shift on. -/
theorem readGroups_writeGroups {shift n : Nat} (tail : Bytes) (h : n * span shift < span 64)
    (hshift : shift ≤ 63) :
    readGroups shift (writeGroups n ++ tail) = .ok (n * span shift, tail) := by
  induction n using Nat.strongRecOn generalizing shift with
  | ind n ih =>
    rw [writeGroups]
    split
    · next hsmall =>
      have hbyte : (UInt8.ofNat n).toNat = n := by
        simp only [UInt8.toNat_ofNat']
        omega
      have hlow : n % 128 = n := by omega
      simp only [List.cons_append, List.nil_append, readGroups, hbyte, hlow, hsmall, if_pos,
        Nat.mod_eq_of_lt h]
      rw [if_neg (by omega)]
    · next hlarge =>
      have hbyte : (UInt8.ofNat (n % 128 + 128)).toNat = n % 128 + 128 := by
        simp only [UInt8.toNat_ofNat']
        omega
      have hlow : (n % 128 + 128) % 128 = n % 128 := by omega
      have hmark : ¬ n % 128 + 128 < 128 := by omega
      have hpow : span (shift + 7) = 128 * span shift := span_add_seven shift
      have hhigh : n / 128 * span (shift + 7) ≤ n * span shift := by
        rw [hpow, ← Nat.mul_assoc]
        exact Nat.mul_le_mul_right _ (by omega)
      have hgroup : n % 128 * span shift < span 64 :=
        Nat.lt_of_le_of_lt (Nat.mul_le_mul_right _ (Nat.mod_le n 128)) h
      have hroom : shift + 7 ≤ 63 := by
        have hge : 128 * span shift ≤ n * span shift := Nat.mul_le_mul_right _ (by omega)
        have hlt : span (shift + 7) < span 64 := by omega
        have := (Nat.pow_lt_pow_iff_right (by omega : 1 < 2)).mp hlt
        omega
      have hsum : n % 128 * span shift + n / 128 * span (shift + 7) = n * span shift := by
        rw [hpow, ← Nat.mul_assoc, ← Nat.add_mul]
        congr 1
        omega
      have hrest := ih (n / 128) (by omega) (Nat.lt_of_le_of_lt hhigh h) hroom
      simp only [List.cons_append, readGroups, hbyte, hlow, hmark, if_neg, not_false_eq_true,
        hrest, Nat.mod_eq_of_lt hgroup, hsum]
      rw [if_neg (by omega)]

/-- Every number of sixty-four bits is read back, whatever follows it. -/
theorem read_write {n : Int} (h : IsInt64 n) (tail : Bytes) :
    read (write n ++ tail) = .ok (n, tail) := by
  have hz : zigzag n * span 0 < span 64 := by
    obtain ⟨hlow, hhigh⟩ := h
    unfold minInt64 at hlow
    unfold maxInt64 at hhigh
    unfold zigzag span
    simp only [Nat.pow_eq]
    split <;> omega
  have hread := readGroups_writeGroups tail hz (by omega)
  have hone : span 0 = 1 := rfl
  simp only [read, write, hread, hone, Nat.mul_one, unzigzag_zigzag]

end TripArchive.Varint
