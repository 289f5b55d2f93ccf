import TripArchive.Gzip.Deflate

/-!
# Stored blocks read back

A stored block begins on a byte boundary with three bits that say what it is, and ends on one. So
reading a stored block takes exactly its bytes, and `inflate` undoes `deflate` and stops where the
stream stops, whatever follows it. It is one of the compressors (`Compressor.stored`).
-/

namespace TripArchive.Gzip

variable {data : Bytes}

/-- The three bits before a stored block: whether it is the last, and its kind. -/
theorem number_flag (last : Bool) (rest : Bytes) :
    (Bits.ofBytes ((if last then 1 else 0) :: rest)).number 1 =
        .ok (last.toNat, ⟨(if last then 1 else 0) :: rest, 1⟩) ∧
      (⟨(if last then 1 else 0) :: rest, 1⟩ : Bits).number 2 =
        .ok (0, ⟨(if last then 1 else 0) :: rest, 3⟩) := by
  have hone : Nat.testBit 1 1 = false := by decide
  have htwo : Nat.testBit 1 2 = false := by decide
  cases last <;>
    simp [Bits.number, Bits.next?, Bits.ofBytes, bind, Except.bind, hone, htwo]

/-- The length, its complement and the bytes of a stored block are read back. -/
theorem stored_append (h : data.length ≤ 65535) (tail : Bytes) (out : Array UInt8) :
    stored (Bytes.ofNatLE 2 data.length ++ Bytes.ofNatLE 2 (65535 - data.length) ++ data ++ tail)
      out = .ok (out ++ data.toArray, Bits.ofBytes tail) := by
  have hlength : Bytes.toNatLE (Bytes.ofNatLE 2 data.length) = data.length :=
    Bytes.toNatLE_ofNatLE_of_lt (Nat.lt_of_le_of_lt h (by decide))
  have hcomplement :
      Bytes.toNatLE (Bytes.ofNatLE 2 (65535 - data.length)) = 65535 - data.length :=
    Bytes.toNatLE_ofNatLE_of_lt (Nat.lt_of_le_of_lt (Nat.sub_le _ _) (by decide))
  have hroom : data.length ≤ (data ++ tail).length := by simp
  simp only [Bytes.ofNatLE, List.cons_append, List.nil_append, stored] at hlength hcomplement ⊢
  simp only [hlength, hcomplement, if_true, if_pos hroom, List.take_left, List.drop_left]

/-- A stored block is read back, and the blocks after it follow unless it was the last. -/
theorem blocks_storedBlock (h : data.length ≤ 65535) (last : Bool) (fuel : Nat) (tail : Bytes)
    (out : Array UInt8) :
    blocks (fuel + 1) (Bits.ofBytes (storedBlock last data ++ tail)) out =
      if last then .ok (out ++ data.toArray, Bits.ofBytes tail)
      else blocks fuel (Bits.ofBytes tail) (out ++ data.toArray) := by
  obtain ⟨hlast, hkind⟩ := number_flag last
    (Bytes.ofNatLE 2 data.length ++ Bytes.ofNatLE 2 (65535 - data.length) ++ data ++ tail)
  have hrest (flag : UInt8) (bytes : Bytes) : (⟨flag :: bytes, 3⟩ : Bits).rest = bytes := rfl
  unfold storedBlock
  rw [List.cons_append, blocks]
  simp only [hlast, hkind, bind, Except.bind, block, hrest, stored_append h]
  cases last <;> rfl

/-- All blocks of a written stream are read back. -/
theorem blocks_deflate (fuel : Nat) (tail : Bytes) (out : Array UInt8)
    (hfuel : (deflate data).length ≤ fuel) :
    blocks fuel (Bits.ofBytes (deflate data ++ tail)) out =
      .ok (out ++ data.toArray, Bits.ofBytes tail) := by
  induction data using deflate.induct generalizing fuel out with
  | case1 data hshort =>
    rw [deflate, if_pos hshort] at hfuel ⊢
    obtain ⟨fuel, rfl⟩ : ∃ less, fuel = less + 1 :=
      ⟨fuel - 1, by simp [storedBlock] at hfuel; omega⟩
    rw [blocks_storedBlock hshort]
    rfl
  | case2 data hlong ih =>
    rw [deflate, if_neg hlong] at hfuel ⊢
    have hblock : 1 ≤ (storedBlock false (data.take 65535)).length := by simp [storedBlock]
    rw [List.length_append] at hfuel
    obtain ⟨fuel, rfl⟩ : ∃ less, fuel = less + 1 := ⟨fuel - 1, by omega⟩
    have htake : (data.take 65535).length ≤ 65535 := List.length_take_le _ _
    rw [List.append_assoc, blocks_storedBlock htake]
    have hrest := ih fuel (out ++ (data.take 65535).toArray) (by omega)
    simp only [Bool.false_eq_true, if_false, hrest]
    have hwhole : (data.take 65535).toArray ++ (data.drop 65535).toArray = data.toArray := by
      simp
    rw [Array.append_assoc, hwhole]

/-- A written stream is expanded to its data, and what follows it is left. -/
theorem inflate_deflate (data tail : Bytes) :
    inflate (deflate data ++ tail) = .ok (data, tail) := by
  have hfuel : (deflate data).length ≤ (Bits.ofBytes (deflate data ++ tail)).left := by
    simp only [Bits.left, Bits.ofBytes, List.length_append]
    omega
  have hblocks := blocks_deflate _ tail #[] hfuel
  unfold inflate
  rw [hblocks]
  simp [bind, Except.bind, Bits.rest, Bits.ofBytes]

/-- Writes stored blocks. -/
def Compressor.stored : Compressor where
  stream := deflate
  expands data := by
    have halone := inflate_deflate data []
    rwa [List.append_nil] at halone

end TripArchive.Gzip
