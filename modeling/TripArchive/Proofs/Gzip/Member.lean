import TripArchive.Proofs.Gzip.Inflate
import TripArchive.Proofs.Text.Utf8

/-!
# Containers read back

A written member is read back to its name and data as long as the name is short enough for a
reader, whatever compressor has written it, and reading goes on behind it.
`decompress_compress_append` says so for a container that begins with a written member, whatever
follows.
-/

namespace TripArchive.Gzip

/-- Whether a name is read back: at most 65535 bytes. -/
def Name.Short (name : Name) : Prop := (Utf8.encode name.text).length ≤ maxFieldBytes

variable {name : Name} {compressor : Compressor}

/-- Bytes without a zero are read up to the zero that ends them. -/
theorem untilNul_append {room : Nat} {field : Bytes} (hzero : 0 ∉ field)
    (hroom : field.length ≤ room) (tail : Bytes) :
    untilNul room (field ++ 0 :: tail) = .ok (field, tail) := by
  induction field generalizing room with
  | nil => cases room <;> rfl
  | cons b field ih =>
    rw [List.mem_cons, not_or] at hzero
    obtain ⟨hb, hfield⟩ := hzero
    obtain ⟨room, rfl⟩ : ∃ less, room = less + 1 := ⟨room - 1, by simp at hroom; omega⟩
    have hrest := ih hfield (by simpa using hroom)
    rw [List.cons_append, untilNul, if_neg (Ne.symm hb), hrest]
    rfl

/-- As many bytes as were written are taken, and what follows them is left. -/
theorem takeBytes_append {n : Nat} {bytes : Bytes} (h : bytes.length = n) (tail : Bytes) :
    takeBytes n (bytes ++ tail) = .ok (bytes, tail) := by
  subst h
  rw [takeBytes, if_pos (by simp), List.take_left, List.drop_left]

/-- A written header is read back, whatever follows it. -/
theorem readHeader_header (h : name.Short) (body : Bytes) :
    readHeader (header name ++ body) = .ok (some (Utf8.encode name.text), body) := by
  have hname := untilNul_append (Utf8.zero_not_mem_encode name.noNul) h body
  have hextra : (8 : UInt8).toNat.testBit 2 = false := by decide
  have hnamed : (8 : UInt8).toNat.testBit 3 = true := by decide
  have hcomment : (8 : UInt8).toNat.testBit 4 = false := by decide
  have hchecked : (8 : UInt8).toNat.testBit 1 = false := by decide
  have hflags : (8 : UInt8) < 0x20 := by decide
  simp only [header, List.append_assoc, List.cons_append, List.nil_append, readHeader, hflags,
    and_self, if_true, optional, hextra, hnamed,
    hcomment, hchecked, textField, hname, bind, Except.bind, Bool.false_eq_true, if_false]

/-- A member around a stream that is expanded to its data is read back. -/
theorem readMember_stream (h : name.Short) {stream data tail : Bytes}
    (hinflate : inflate (stream ++ (trailer data ++ tail)) = .ok (data, trailer data ++ tail)) :
    readMember (header name ++ stream ++ trailer data ++ tail) =
      .ok (⟨some name.text, data⟩, tail) := by
  have htrailer : (trailer data).length = 8 := by simp [trailer]
  have hlossy : Utf8.decodeLossy (Utf8.encode name.text) = name.text := by
    rw [Utf8.decodeLossy, Utf8.decode_encode]
  unfold readMember
  rw [List.append_assoc, List.append_assoc, readHeader_header h]
  simp only [bind, Except.bind, hinflate, takeBytes_append htrailer, if_true, Option.map, hlossy]

/-- The stream of a compressor is expanded to its data, whatever follows it. -/
theorem Compressor.inflate_append (compressor : Compressor) (data tail : Bytes) :
    inflate (compressor.stream data ++ tail) = .ok (data, tail) := by
  have halone : inflate (compressor.stream data ++ []) = .ok (data, []) := by
    rw [List.append_nil]
    exact compressor.expands data
  exact local_inflate.append halone tail

/-- A written member is read back, whatever follows it. -/
theorem readMember_compress (h : name.Short) (data tail : Bytes) :
    readMember (compress compressor data name ++ tail) = .ok (⟨some name.text, data⟩, tail) :=
  readMember_stream h (compressor.inflate_append data _)

/-- Expanding a container that begins with a written member gives its entry and goes on behind
it. -/
theorem decompress_compress_append (h : name.Short) (data tail : Bytes) :
    decompress (compress compressor data name ++ tail) =
      (decompress tail).map fun entries => ⟨some name.text, data⟩ :: entries := by
  have hlong : 0 < (compress compressor data name).length := by simp [compress, header]
  have hne : compress compressor data name ++ tail ≠ [] := by
    intro hnil
    rw [List.append_eq_nil_iff.mp hnil |>.1] at hlong
    exact absurd hlong (by simp)
  have hless : tail.length < (compress compressor data name ++ tail).length := by
    rw [List.length_append]
    omega
  rw [decompress, if_neg hne, readMember_compress h]
  simp only [bind, Except.bind, if_pos hless]
  cases decompress tail <;> rfl

/-- A container of one written member holds its entry. -/
theorem decompress_compress (h : name.Short) (data : Bytes) :
    decompress (compress compressor data name) = .ok [⟨some name.text, data⟩] := by
  have hempty : decompress [] = .ok [] := by
    rw [decompress, if_pos rfl]
  have hmember : decompress (compress compressor data name ++ []) =
      (decompress []).map fun entries => ⟨some name.text, data⟩ :: entries :=
    decompress_compress_append h data []
  rwa [List.append_nil, hempty] at hmember

end TripArchive.Gzip
