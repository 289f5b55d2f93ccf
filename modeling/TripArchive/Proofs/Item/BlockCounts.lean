import TripArchive.Proofs.Item.Groups
import TripArchive.Proofs.Item.TagRounds

/-!
# Block counts add up

The count of a block says how many tags it holds, and a negative one says it by its magnitude. So a
list of tags has as many of them as its block counts say together. The least number of sixty-four
bits has no magnitude of that width: reading negates it all the same, and panics
(`counts_add_up`).
-/

namespace TripArchive.TagList

variable {bytes behind rest : Bytes} {tags : List Tag} {count : Int}

/-- On words the magnitude of a count is taken by negating it, which wraps for the least word
only. -/
theorem blockSize_toInt {word : Int64} (hleast : word ≠ Int64.minValue) :
    blockSize word.toInt = .ok (if word < 0 then -word else word).toInt.toNat := by
  have hother : word.toInt ≠ minInt64 := fun h => hleast (Int64.toInt_inj.mp h)
  have hlow : -2 ^ 63 < word.toInt := Int.lt_iff_le_and_ne.mpr ⟨word.le_toInt, Ne.symm hother⟩
  have hhigh := word.toInt_lt
  have hnegated : (-word).toInt = -word.toInt := by
    rw [Int64.toInt_neg]
    exact Int.bmod_eq_of_le (by omega) (by omega)
  have hsign : word < 0 ↔ word.toInt < 0 := Int64.lt_iff_toInt_lt
  refine blockSize_eq_ok_iff.mpr ⟨hother, ?_⟩
  split
  · next hnegative =>
    rw [hsign] at hnegative
    omega
  · next hnegative =>
    rw [hsign] at hnegative
    omega

/-- A block has as many tags as its count announces, and takes bytes from the front. -/
theorem length_of_readBlock (h : readBlock count bytes = .ok (tags, rest)) :
    tags.length = count.natAbs ∧ rest.length ≤ bytes.length := by
  obtain ⟨_, body, hbody, htags⟩ := readBlock_eq_ok_iff.mp h
  obtain ⟨taken, _, rfl⟩ := skipSize_eq_ok_iff.mp hbody
  obtain ⟨taken', ⟨hlength, _⟩, rfl⟩ := (reads_tags _ _ _ _).mp htags
  simp only [List.length_append]
  exact ⟨hlength, by omega⟩

/-- A number leaves fewer bytes. -/
theorem length_of_readNumber (h : readNumber bytes = .ok (count, rest)) :
    rest.length < bytes.length :=
  Varint.length_of_read (mapError_eq_ok.mp h)

/-- The block counts that reading a list of tags takes from the bytes, in order, up to the count
zero or to a failure. -/
def blockCounts (bytes : Bytes) : List Int :=
  match _hcount : readNumber bytes with
  | .error _ => []
  | .ok (count, behind) =>
    count :: if count = 0 then [] else
      match _hblock : readBlock count behind with
      | .error _ => []
      | .ok (_, rest) => blockCounts rest
  termination_by bytes.length
  decreasing_by
    have hlength := (length_of_readBlock ‹readBlock _ _ = _›).2
    have hless := length_of_readNumber ‹readNumber _ = _›
    omega

/-- The count zero is the last one. -/
theorem blockCounts_zero (h : readNumber bytes = .ok (0, rest)) : blockCounts bytes = [0] := by
  rw [blockCounts]
  split
  · next hfault => cases h.symm.trans hfault
  · next hcount =>
    cases h.symm.trans hcount
    rfl

/-- The count of a block comes before those behind it. -/
theorem blockCounts_block (hcount : readNumber bytes = .ok (count, behind)) (hsome : count ≠ 0)
    (hblock : readBlock count behind = .ok (tags, rest)) :
    blockCounts bytes = count :: blockCounts rest := by
  rw [blockCounts]
  split
  · next hfault => cases hcount.symm.trans hfault
  · next hcount' =>
    cases hcount.symm.trans hcount'
    rw [if_neg hsome]
    split
    · next hfault => cases hblock.symm.trans hfault
    · next hblock' =>
      cases hblock.symm.trans hblock'
      rfl

/-- A block count is the number that is read first, or a block count of what its block leaves. -/
theorem mem_blockCounts_iff :
    count ∈ blockCounts bytes ↔ ∃ first behind, readNumber bytes = .ok (first, behind) ∧
      (count = first ∨ first ≠ 0 ∧ ∃ tags rest, readBlock first behind = .ok (tags, rest) ∧
        count ∈ blockCounts rest) := by
  constructor
  · intro h
    rw [blockCounts] at h
    split at h
    · cases h
    · next first behind hfirst =>
      refine ⟨first, behind, hfirst, (List.mem_cons.mp h).imp_right fun h => ?_⟩
      split at h
      · cases h
      · next hsome =>
        split at h
        · cases h
        · next tags rest hblock => exact ⟨hsome, tags, rest, hblock, h⟩
  · rintro ⟨first, behind, hfirst, rfl | ⟨hsome, tags, rest, hblock, h⟩⟩
    · rw [blockCounts]
      split
      · next hfault => cases hfirst.symm.trans hfault
      · next hfirst' =>
        cases hfirst.symm.trans hfirst'
        exact List.mem_cons_self
    · rw [blockCounts_block hfirst hsome hblock]
      exact List.mem_cons_of_mem first h

/-- Block counts have sixty-four bits. -/
theorem isInt64_of_mem_blockCounts (h : count ∈ blockCounts bytes) : IsInt64 count := by
  induction bytes using blockCounts.induct with
  | case1 bytes fault hfault =>
    obtain ⟨first, behind, hfirst, _⟩ := mem_blockCounts_iff.mp h
    cases hfault.symm.trans hfirst
  | case2 bytes number behind hnumber ih =>
    obtain ⟨first, behind, hfirst, rfl | ⟨_, tags, rest, hblock, h⟩⟩ := mem_blockCounts_iff.mp h
    · exact Varint.isInt64_of_read (mapError_eq_ok.mp hfirst)
    · cases hnumber.symm.trans hfirst
      exact ih tags rest hblock h

/-- The tags that are read are as many as the block counts announce. -/
theorem length_of_readBlocks {fuel : Nat} (h : readBlocks fuel bytes = .ok (tags, rest)) :
    tags.length = ((blockCounts bytes).map Int.natAbs).sum := by
  induction fuel generalizing bytes tags with
  | zero => cases h
  | succ fuel ih =>
    obtain ⟨count, behind, hcount, hround⟩ := readBlocks_succ_eq_ok_iff.mp h
    rcases hround with ⟨rfl, rfl, _⟩ | ⟨hsome, first, others, later, hfirst, hlater, rfl⟩
    · rw [blockCounts_zero hcount]
      rfl
    · rw [blockCounts_block hcount hsome hfirst, List.map_cons, List.sum_cons, List.length_append,
        ih hlater, (length_of_readBlock hfirst).1]

/-- A list of tags has as many as its block counts announce. -/
theorem length_of_read (h : read bytes = .ok tags) :
    tags.length = ((blockCounts bytes).map Int.natAbs).sum := by
  rcases read_eq_ok_iff.mp h with ⟨rfl, rfl⟩ | ⟨_, hblocks⟩
  · rw [blockCounts]
    rfl
  · exact length_of_readBlocks hblocks

/-- The least count is among the block counts that are read exactly if it is one in the grammar of
tag lists. -/
theorem minInt64_mem_blockCounts_iff : minInt64 ∈ blockCounts bytes ↔ HasCount minInt64 bytes := by
  constructor
  · intro h
    induction bytes using blockCounts.induct with
    | case1 bytes fault hfault =>
      obtain ⟨first, behind, hfirst, _⟩ := mem_blockCounts_iff.mp h
      cases hfault.symm.trans hfirst
    | case2 bytes first behind hfirst ih =>
      obtain ⟨first', behind', hfirst', hcount⟩ := mem_blockCounts_iff.mp h
      cases hfirst.symm.trans hfirst'
      rcases hcount with rfl | ⟨hsome, tags, rest, hblock, hrest⟩
      · exact hasCount_of_readNumber hfirst
      · obtain ⟨front, hfront, rfl⟩ := spellsBlock_of_readBlock hfirst hsome hblock
        exact .later hfront (ih tags rest hblock hrest)
  · intro h
    induction h with
    | here hnumber => exact mem_blockCounts_iff.mpr ⟨_, _, reads_number.read hnumber _, Or.inl rfl⟩
    | @later first tags front rest hblock _ ih =>
      obtain ⟨hsome, behind, hfirst, hread⟩ := hblock.read rest
      refine mem_blockCounts_iff.mpr ⟨first, behind, hfirst, ?_⟩
      -- Behind the least count nothing is read any more.
      by_cases hleast : first = minInt64
      · exact Or.inl hleast.symm
      · exact Or.inr ⟨hsome, tags, rest, hread hleast, ih⟩

/-- The block counts that are read have sixty-four bits, and all but the least have magnitudes of
that width. Reading panics exactly if the least count is among them. Whenever a list of tags is
read, its length is the sum of the magnitudes of its block counts. -/
theorem counts_add_up (bytes : Bytes) :
    (∀ count ∈ blockCounts bytes, IsInt64 count ∧ (IsInt64 (-count) ↔ count ≠ minInt64)) ∧
    (∀ words, read bytes = .error (.panicked words) ↔
      words = negationOverflow ∧ minInt64 ∈ blockCounts bytes) ∧
    ∀ tags, read bytes = .ok tags →
      tags.length = ((blockCounts bytes).map Int.natAbs).sum := by
  refine ⟨fun count hcount => ?_, fun words => ?_, fun tags hread => length_of_read hread⟩
  · have hwidth := isInt64_of_mem_blockCounts hcount
    refine ⟨hwidth, ?_⟩
    unfold IsInt64 minInt64 maxInt64 at *
    omega
  · rw [minInt64_mem_blockCounts_iff]
    exact read_eq_panicked_iff

/-- Two blocks, one with a negative count and a size and one with a positive count. -/
def twoBlocks : Bytes := [1, 0, 2, 65, 2, 66, 2, 0, 0, 0]

/-- The tags of both blocks are read, as many as the counts say together. -/
theorem two_blocks_add_up :
    read twoBlocks = .ok [⟨"A", "B"⟩, ⟨"", ""⟩] ∧ blockCounts twoBlocks = [-1, 1, 0] ∧
      2 = ((blockCounts twoBlocks).map Int.natAbs).sum := by
  have hread : read twoBlocks = .ok [⟨"A", "B"⟩, ⟨"", ""⟩] := by decide +kernel
  have hfirst : readNumber twoBlocks = .ok (-1, twoBlocks.drop 1) := by decide
  have hfirstBlock : readBlock (-1) (twoBlocks.drop 1) =
      .ok ([⟨"A", "B"⟩], twoBlocks.drop 6) := by decide
  have hlast : readNumber (twoBlocks.drop 6) = .ok (1, twoBlocks.drop 7) := by decide
  have hlastBlock : readBlock 1 (twoBlocks.drop 7) = .ok ([⟨"", ""⟩], twoBlocks.drop 9) := by decide
  have hend : readNumber (twoBlocks.drop 9) = .ok (0, []) := by decide
  have hcounts : blockCounts twoBlocks = [-1, 1, 0] := by
    rw [blockCounts_block hfirst (by decide) hfirstBlock,
      blockCounts_block hlast (by decide) hlastBlock, blockCounts_zero hend]
  exact ⟨hread, hcounts, (counts_add_up twoBlocks).2.2 _ hread⟩

/-- A block with the least count and the count that ends the list. -/
def leastBlock : Bytes := Varint.leastGroups ++ [0, 0]

/-- The least count is not refused: it is read as a block count, its negation overflows, and reading
panics. -/
theorem least_count_panics :
    read leastBlock = .error (.panicked negationOverflow) ∧
      blockCounts leastBlock = [minInt64] ∧ ¬ IsInt64 (-minInt64) := by
  have hread : read leastBlock = .error (.panicked negationOverflow) := by decide +kernel
  have hleast : readNumber leastBlock = .ok (minInt64, leastBlock.drop 10) := by decide +kernel
  have hcounts : blockCounts leastBlock = [minInt64] := by
    rw [blockCounts]
    split
    · next hfault => cases hleast.symm.trans hfault
    · next hcount =>
      cases hleast.symm.trans hcount
      rfl
  exact ⟨hread, hcounts, by decide⟩

end TripArchive.TagList
