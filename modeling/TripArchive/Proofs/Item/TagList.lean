import TripArchive.Item.TagList
import TripArchive.Proofs.Except

/-!
# Tag lists read back

Every part of a written list of tags is read back whatever follows it: a text, a tag, a number of
tags and a block. A list that keeps the limits of tags is short enough for its numbers, so reading
undoes writing (`read_write`).
-/

namespace TripArchive

namespace TagList

variable {text : String} {tag : Tag} {tags : List Tag}

/-- Whether the lengths of a tag's texts are numbers of sixty-four bits. -/
def Short (tag : Tag) : Prop :=
  IsInt64 (Utf8.encode tag.name).length ∧ IsInt64 (Utf8.encode tag.value).length

/-- A length of at most 3072 bytes is a number of sixty-four bits. -/
theorem isInt64_of_fits {most : Nat} (hmost : most ≤ 3072) (h : Tag.Fits most text) :
    IsInt64 (Utf8.encode text).length := by
  obtain ⟨_, hlong⟩ := h
  rw [Utf8.length_encode]
  unfold IsInt64 minInt64 maxInt64
  omega

/-- Tags within the limits are short. -/
theorem short_of_withinLimits (h : Tag.WithinLimits tags) : ∀ tag ∈ tags, Short tag := by
  intro tag hmem
  obtain ⟨hname, hvalue⟩ := h.2 tag hmem
  exact ⟨isInt64_of_fits (by decide) hname, isInt64_of_fits (by decide) hvalue⟩

/-- A number is read back, whatever follows it. -/
theorem readNumber_write {n : Int} (h : IsInt64 n) (tail : Bytes) :
    readNumber (Varint.write n ++ tail) = .ok (n, tail) := by
  unfold readNumber
  rw [Varint.read_write h]
  rfl

/-- The count that ends a list is one byte. -/
theorem write_zero : Varint.write 0 = [0] := by
  rw [Varint.write, Varint.writeGroups]
  rfl

/-- A text is read back, whatever follows it. -/
theorem readText_writeText (h : IsInt64 (Utf8.encode text).length) (tail : Bytes) :
    readText (writeText text ++ tail) = .ok (text, tail) := by
  have hsign : ¬ ((Utf8.encode text).length : Int) < 0 := by omega
  have hroom : ¬ (Utf8.encode text ++ tail).length < (Utf8.encode text).length := by simp
  unfold readText writeText
  rw [List.append_assoc, readNumber_write h]
  simp only [bind, Except.bind, if_neg hsign, Int.toNat_natCast, if_neg hroom, List.take_left,
    List.drop_left, Utf8.decode_encode, mapError_ok]

/-- A tag is read back, whatever follows it. -/
theorem readTag_writeTag (h : Short tag) (tail : Bytes) :
    readTag (writeTag tag ++ tail) = .ok (tag, tail) := by
  unfold readTag writeTag
  rw [List.append_assoc, readText_writeText h.1]
  simp only [bind, Except.bind, readText_writeText h.2]

/-- As many tags as were written are read back, whatever follows them. -/
theorem readTags_flatMap (h : ∀ tag ∈ tags, Short tag) (tail : Bytes) :
    readTags tags.length (tags.flatMap writeTag ++ tail) = .ok (tags, tail) := by
  induction tags with
  | nil => rfl
  | cons tag tags ih =>
    obtain ⟨htag, hrest⟩ := List.forall_mem_cons.mp h
    rw [List.flatMap_cons, List.append_assoc, List.length_cons, readTags, readTag_writeTag htag]
    simp only [bind, Except.bind, ih hrest]

/-- A block and the zero count after it are read back, whatever follows them. -/
theorem readBlocks_block (hne : tags ≠ []) (hcount : IsInt64 tags.length)
    (h : ∀ tag ∈ tags, Short tag) (fuel : Nat) (tail : Bytes) :
    readBlocks (fuel + 2)
      (Varint.write tags.length ++ (tags.flatMap writeTag ++ (Varint.write 0 ++ tail))) =
        .ok (tags, tail) := by
  have hpos : 0 < tags.length := List.length_pos_iff.mpr hne
  have hsome : ¬ ((tags.length : Int) = 0) := by omega
  have hsign : ¬ ((tags.length : Int) < 0) := by omega
  have hsize : blockSize tags.length = .ok tags.length := by
    have hleast : ¬ ((tags.length : Int) = minInt64) := by
      unfold minInt64
      omega
    rw [blockSize, if_neg hleast, Int.natAbs_natCast]
  have hend : readBlocks (fuel + 1) (Varint.write 0 ++ tail) = .ok ([], tail) := by
    rw [readBlocks, readNumber_write (by decide)]
    rfl
  rw [readBlocks, readNumber_write hcount]
  simp only [bind, Except.bind, Failure.lift_ok, if_neg hsome, skipSize, if_neg hsign, hsize,
    readTags_flatMap h, hend, List.append_nil]

/-- Tags that keep the limits are read back. -/
theorem read_write (h : Tag.WithinLimits tags) : read (write tags) = .ok tags := by
  by_cases hne : tags = []
  · subst hne
    rfl
  · have hcount : IsInt64 tags.length := by
      have hmost := h.1
      unfold Tag.maxCount at hmost
      unfold IsInt64 minInt64 maxInt64
      omega
    have hwrite : write tags =
        Varint.write tags.length ++ (tags.flatMap writeTag ++ (Varint.write 0 ++ [])) := by
      rw [write, if_neg hne, List.append_nil, List.append_assoc]
    have hsome : 0 < (write tags).length := by
      rw [hwrite, write_zero]
      simp only [List.length_append, List.length_singleton]
      omega
    obtain ⟨fuel, hfuel⟩ : ∃ fuel, (write tags).length + 1 = fuel + 2 :=
      ⟨(write tags).length - 1, by omega⟩
    have hblocks : readBlocks ((write tags).length + 1) (write tags) = .ok (tags, []) := by
      rw [hfuel, hwrite]
      exact readBlocks_block hne hcount (short_of_withinLimits h) fuel []
    rw [read, if_neg (List.length_pos_iff.mp hsome), hblocks]
    rfl

/-- The groups of a number are at most one more than the number. -/
theorem length_writeGroups_le (n : Nat) : (Varint.writeGroups n).length ≤ n + 1 := by
  induction n using Nat.strongRecOn with
  | ind n ih =>
    rw [Varint.writeGroups]
    split
    · simp
    · next hlarge =>
      have hrest := ih (n / 128) (by omega)
      simp only [List.length_cons]
      omega

/-- A length takes at most twice itself and one byte. -/
theorem length_write_natCast_le (n : Nat) : (Varint.write n).length ≤ 2 * n + 1 := by
  have hgroups := length_writeGroups_le (Varint.zigzag n)
  have hzigzag : Varint.zigzag n = 2 * n := by simp [Varint.zigzag]
  rw [hzigzag] at hgroups
  exact hgroups

/-- A text of limited length takes limited space. -/
theorem length_writeText_le {most : Nat} (h : Tag.Fits most text) :
    (writeText text).length ≤ 3 * most + 1 := by
  have hnumber := length_write_natCast_le (Utf8.encode text).length
  have htext := Utf8.length_encode text
  have hmost := h.2
  rw [writeText, List.length_append]
  omega

/-- Tags that keep the limits take at most two million bytes. -/
theorem length_write_le (h : Tag.WithinLimits tags) : (write tags).length ≤ 2000000 := by
  obtain ⟨hcount, htags⟩ := h
  have htag : ∀ tag ∈ tags, (writeTag tag).length ≤ 12290 := by
    intro tag hmem
    obtain ⟨hname, hvalue⟩ := htags tag hmem
    have hnameLength := length_writeText_le hname
    have hvalueLength := length_writeText_le hvalue
    unfold Tag.maxNameBytes at hnameLength
    unfold Tag.maxValueBytes at hvalueLength
    rw [writeTag, List.length_append]
    omega
  have hall : (tags.flatMap writeTag).length ≤ 12290 * tags.length := by
    clear hcount htags
    induction tags with
    | nil => simp
    | cons tag tags ih =>
      obtain ⟨hfirst, hrest⟩ := List.forall_mem_cons.mp htag
      have hlater := ih hrest
      rw [List.flatMap_cons, List.length_append, List.length_cons]
      omega
  have hnumber := length_write_natCast_le tags.length
  unfold Tag.maxCount at hcount
  unfold write
  split
  · simp
  · rw [write_zero]
    simp only [List.length_append, List.length_singleton]
    omega

end TagList

end TripArchive
