import TripArchive.Bytes

/-!
# Bit streams

A byte string read bit by bit, the lowest bit of each byte first. Every bit taken leaves one less
(`left_next?`), which bounds all loops over a stream.
-/

namespace TripArchive.Gzip

/-- Why a compressed container cannot be read. -/
inductive Fault
  /-- The input ends too early. -/
  | truncated
  /-- The input breaks the format. -/
  | corrupt
  /-- A member was read without using any input. -/
  | stalled
  deriving DecidableEq, Repr

/-- The bytes from the current one on, and how many bits of that one are already taken. -/
structure Bits where
  bytes : Bytes
  used : Fin 8

namespace Bits

/-- The stream at the first bit of a byte string. -/
def ofBytes (bytes : Bytes) : Bits := ⟨bytes, 0⟩

/-- The number of bits that are left. -/
def left (s : Bits) : Nat := 8 * s.bytes.length - s.used

/-- The next bit and the stream after it. -/
def next? (s : Bits) : Option (Bool × Bits) :=
  match s.bytes with
  | [] => none
  | b :: rest =>
    if s.used = 7 then some (b.toNat.testBit s.used, ⟨rest, 0⟩)
    else some (b.toNat.testBit s.used, ⟨b :: rest, s.used + 1⟩)

/-- A number of `count` bits, the lowest first. -/
def number : (count : Nat) → Bits → Except Fault (Nat × Bits)
  | 0, s => .ok (0, s)
  | count + 1, s =>
    match s.next? with
    | none => .error .truncated
    | some (bit, s) => do
      let (n, s) ← number count s
      .ok (bit.toNat + 2 * n, s)

/-- The bytes from the next byte boundary on. -/
def rest (s : Bits) : Bytes := if s.used = 0 then s.bytes else s.bytes.tail

/-- Taking a bit leaves one less. -/
theorem left_next? {s t : Bits} {bit : Bool} (h : s.next? = some (bit, t)) :
    t.left + 1 = s.left := by
  obtain ⟨bytes, used⟩ := s
  cases bytes with
  | nil => simp [next?] at h
  | cons b rest =>
    have hused := used.isLt
    simp only [next?] at h
    split at h
    · next hlast =>
      simp only [Option.some.injEq, Prod.mk.injEq] at h
      obtain ⟨_, rfl⟩ := h
      subst hlast
      simp [left]
      omega
    · next hmore =>
      simp only [Option.some.injEq, Prod.mk.injEq] at h
      obtain ⟨_, rfl⟩ := h
      have hlt : used.val < 7 := by
        have hne : used.val ≠ 7 := fun hv => hmore (Fin.ext hv)
        omega
      have hnext : (used + 1).val = used.val + 1 := by
        rw [Fin.val_add]
        show (used.val + 1) % 8 = used.val + 1
        omega
      simp only [left, List.length_cons, hnext]
      omega

end Bits

end TripArchive.Gzip
