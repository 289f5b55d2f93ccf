import TripArchive.Proofs.Item.TagList

/-!
# The grammar of tag lists

A relation for each part of a list of tags says which bytes spell it: a number, a text, a tag, some
tags, a block and blocks up to the zero count. Every reader takes a beginning of its bytes that
spells what it gives, and reads such a beginning whatever follows it (`Reads`). A list of tags is
therefore read from the bytes that spell it and from no others (`reads_exactly_spelled`), and of
these neither a beginning nor a continuation is a list.
-/

namespace TripArchive

namespace Varint

/-- Groups are read from a beginning of the bytes, and from it whatever follows. -/
theorem split_of_readGroups {shift n : Nat} {bytes rest : Bytes}
    (h : readGroups shift bytes = .ok (n, rest)) :
    ∃ taken, bytes = taken ++ rest ∧
      ∀ tail, readGroups shift (taken ++ tail) = .ok (n, tail) := by
  induction bytes generalizing shift n rest with
  | nil => cases h
  | cons b bytes ih =>
    rw [readGroups] at h
    split at h
    · cases h
    · next hshift =>
      split at h
      · next hlast =>
        cases h
        refine ⟨[b], rfl, fun tail => ?_⟩
        rw [List.singleton_append, readGroups, if_neg hshift, if_pos hlast]
      · next hmarked =>
        split at h
        · cases h
        · next higher _ hhigher =>
          cases h
          obtain ⟨taken, rfl, htaken⟩ := ih hhigher
          refine ⟨b :: taken, rfl, fun tail => ?_⟩
          rw [List.cons_append, readGroups, if_neg hshift, if_neg hmarked, htaken]

/-- A number is read from a beginning of the bytes, and from it whatever follows. -/
theorem split_of_read {n : Int} {bytes rest : Bytes} (h : read bytes = .ok (n, rest)) :
    ∃ taken, bytes = taken ++ rest ∧ ∀ tail, read (taken ++ tail) = .ok (n, tail) := by
  unfold read at h
  split at h
  · cases h
  · next groups rest' hgroups =>
    cases h
    obtain ⟨taken, hbytes, htaken⟩ := split_of_readGroups hgroups
    refine ⟨taken, hbytes, fun tail => ?_⟩
    unfold read
    rw [htaken]

end Varint

namespace TagList

variable {α : Type} {count : Int} {bytes front block rest : Bytes} {tags more : List Tag}

/-- The bytes of a number. The same number may be spelled in several ways. -/
def SpellsNumber (n : Int) (bytes : Bytes) : Prop := Varint.read bytes = .ok (n, [])

/-- The bytes of a text: the number of its bytes, and these. -/
def SpellsText (text : String) (bytes : Bytes) : Prop :=
  ∃ number, SpellsNumber (Utf8.encode text).length number ∧ bytes = number ++ Utf8.encode text

/-- The bytes of a tag: those of its name and of its value. -/
def SpellsTag (tag : Tag) (bytes : Bytes) : Prop :=
  ∃ name value, SpellsText tag.name name ∧ SpellsText tag.value value ∧ bytes = name ++ value

/-- The bytes of some tags, one after the other. -/
inductive SpellsTags : List Tag → Bytes → Prop
  | nil : SpellsTags [] []
  | cons {tag : Tag} {tags : List Tag} {first rest : Bytes} :
    SpellsTag tag first → SpellsTags tags rest → SpellsTags (tag :: tags) (first ++ rest)

/-- The bytes between a block count and its tags: after a negative count any one number, and
otherwise none. -/
def SpellsSize (count : Int) (bytes : Bytes) : Prop :=
  if count < 0 then ∃ size, SpellsNumber size bytes else bytes = []

/-- The bytes of a block: a count other than zero and, behind the size it asks for, as many tags as
it says, whatever its sign. -/
def SpellsBlock (count : Int) (tags : List Tag) (bytes : Bytes) : Prop :=
  count ≠ 0 ∧ tags.length = count.natAbs ∧ ∃ number size body,
    SpellsNumber count number ∧ SpellsSize count size ∧ SpellsTags tags body ∧
      bytes = number ++ (size ++ body)

/-- The bytes of a list of tags: blocks that hold them in order, and the number zero. -/
inductive Spells : List Tag → Bytes → Prop
  | close {number : Bytes} : SpellsNumber 0 number → Spells [] number
  | block {count : Int} {tags more : List Tag} {front rest : Bytes} :
    SpellsBlock count tags front → Spells more rest → Spells (tags ++ more) (front ++ rest)

/-- The block counts of any bytes: the number at their beginning, and the block counts of what
follows a block. -/
inductive HasCount (count : Int) : Bytes → Prop
  | here {number rest : Bytes} : SpellsNumber count number → HasCount count (number ++ rest)
  | later {first : Int} {tags : List Tag} {front rest : Bytes} :
    SpellsBlock first tags front → HasCount count rest → HasCount count (front ++ rest)

/-- Whether a reader takes exactly the beginnings that spell what it gives. -/
def Reads (reader : Bytes → Except Fault (α × Bytes)) (spells : α → Bytes → Prop) : Prop :=
  ∀ bytes a rest,
    reader bytes = .ok (a, rest) ↔ ∃ taken, spells a taken ∧ bytes = taken ++ rest

section Readers

variable {reader : Bytes → Except Fault (α × Bytes)} {spells : α → Bytes → Prop} {a : α}

/-- What is spelled is read whatever follows it. -/
theorem Reads.read (h : Reads reader spells) (hspells : spells a front) (rest : Bytes) :
    reader (front ++ rest) = .ok (a, rest) :=
  (h _ a rest).mpr ⟨front, hspells, rfl⟩

/-- More bytes at the end stay unread. -/
theorem Reads.append (h : Reads reader spells) (hread : reader bytes = .ok (a, rest))
    (tail : Bytes) : reader (bytes ++ tail) = .ok (a, rest ++ tail) := by
  obtain ⟨taken, htaken, rfl⟩ := (h _ a rest).mp hread
  rw [List.append_assoc]
  exact h.read htaken (rest ++ tail)

/-- Numbers are read as they are spelled. -/
theorem reads_number : Reads readNumber SpellsNumber := by
  intro bytes n rest
  unfold readNumber
  rw [mapError_eq_ok]
  constructor
  · intro h
    obtain ⟨taken, hbytes, htaken⟩ := Varint.split_of_read h
    have hwhole := htaken []
    rw [List.append_nil] at hwhole
    exact ⟨taken, hwhole, hbytes⟩
  · rintro ⟨number, hnumber, rfl⟩
    obtain ⟨taken, hbytes, htaken⟩ := Varint.split_of_read hnumber
    rw [List.append_nil] at hbytes
    rw [hbytes]
    exact htaken rest

/-- Texts are read as they are spelled. -/
theorem reads_text : Reads readText SpellsText := by
  intro bytes text rest
  constructor
  · intro h
    obtain ⟨⟨length, behind⟩, hlength, htext⟩ := bind_eq_ok.mp h
    obtain ⟨number, hnumber, rfl⟩ := (reads_number _ _ _).mp hlength
    dsimp only at htext
    split at htext
    · cases htext
    · next hsign =>
      split at htext
      · cases htext
      · next hroom =>
        obtain ⟨_, hdecode, hanswer⟩ := bind_eq_ok.mp htext
        cases hanswer
        have hencode := Utf8.encode_of_decode (mapError_eq_ok.mp hdecode)
        have hsize : ((Utf8.encode text).length : Int) = length := by
          rw [hencode, List.length_take]
          omega
        refine ⟨number ++ Utf8.encode text, ⟨number, ?_, rfl⟩, ?_⟩
        · rwa [hsize]
        · rw [List.append_assoc, hencode, List.take_append_drop]
  · rintro ⟨_, ⟨number, hnumber, rfl⟩, rfl⟩
    have hsign : ¬ ((Utf8.encode text).length : Int) < 0 := by omega
    have hroom : ¬ (Utf8.encode text ++ rest).length < (Utf8.encode text).length := by simp
    unfold readText
    rw [List.append_assoc, reads_number.read hnumber]
    simp only [bind, Except.bind, if_neg hsign, Int.toNat_natCast, if_neg hroom, List.take_left,
      List.drop_left, Utf8.decode_encode, mapError_ok]

/-- Tags are read as they are spelled. -/
theorem reads_tag : Reads readTag SpellsTag := by
  intro bytes tag rest
  constructor
  · intro h
    obtain ⟨⟨name, behind⟩, hname, h⟩ := bind_eq_ok.mp h
    obtain ⟨⟨value, behind'⟩, hvalue, h⟩ := bind_eq_ok.mp h
    cases h
    obtain ⟨first, hfirst, rfl⟩ := (reads_text _ _ _).mp hname
    obtain ⟨second, hsecond, rfl⟩ := (reads_text _ _ _).mp hvalue
    exact ⟨first ++ second, ⟨first, second, hfirst, hsecond, rfl⟩,
      (List.append_assoc first second rest).symm⟩
  · rintro ⟨_, ⟨name, value, hname, hvalue, rfl⟩, rfl⟩
    unfold readTag
    rw [List.append_assoc, reads_text.read hname]
    simp only [bind, Except.bind, reads_text.read hvalue]

/-- A number of tags is read as tags of that number are spelled. -/
theorem reads_tags (count : Nat) :
    Reads (readTags count) fun tags bytes => tags.length = count ∧ SpellsTags tags bytes := by
  induction count with
  | zero =>
    intro bytes tags rest
    constructor
    · intro h
      cases h
      exact ⟨[], ⟨rfl, .nil⟩, rfl⟩
    · rintro ⟨_, ⟨hnone, htags⟩, rfl⟩
      cases htags with
      | nil => rfl
      | cons => cases hnone
  | succ count ih =>
    intro bytes tags rest
    constructor
    · intro h
      obtain ⟨⟨tag, behind⟩, htag, h⟩ := bind_eq_ok.mp h
      obtain ⟨⟨others, behind'⟩, hothers, h⟩ := bind_eq_ok.mp h
      cases h
      obtain ⟨first, hfirst, rfl⟩ := (reads_tag _ _ _).mp htag
      obtain ⟨second, ⟨hlength, hsecond⟩, rfl⟩ := (ih _ _ _).mp hothers
      exact ⟨first ++ second, ⟨congrArg (· + 1) hlength, .cons hfirst hsecond⟩,
        (List.append_assoc first second rest).symm⟩
    · rintro ⟨_, ⟨hlength, htags⟩, rfl⟩
      cases htags with
      | nil => cases hlength
      | cons hfirst hrest =>
        rw [readTags, List.append_assoc, reads_tag.read hfirst]
        simp only [bind, Except.bind, ih.read ⟨Nat.succ.inj hlength, hrest⟩]

end Readers

/-- The size of a block is skipped as it is spelled. -/
theorem skipSize_eq_ok_iff :
    skipSize count bytes = .ok rest ↔ ∃ taken, SpellsSize count taken ∧ bytes = taken ++ rest := by
  unfold skipSize SpellsSize
  split
  · constructor
    · intro h
      obtain ⟨⟨size, behind⟩, hsize, h⟩ := bind_eq_ok.mp h
      cases h
      obtain ⟨taken, htaken, hbytes⟩ := (reads_number _ _ _).mp hsize
      exact ⟨taken, ⟨size, htaken⟩, hbytes⟩
    · rintro ⟨taken, ⟨size, htaken⟩, rfl⟩
      rw [reads_number.read htaken]
      rfl
  · constructor
    · intro h
      cases h
      exact ⟨[], rfl, rfl⟩
    · rintro ⟨_, rfl, rfl⟩
      rfl

/-- A block is spelled at the beginning of the bytes exactly if its parts are read there in turn. -/
theorem exists_spellsBlock_iff :
    (∃ front, SpellsBlock count tags front ∧ bytes = front ++ rest) ↔
      count ≠ 0 ∧ ∃ behind body, readNumber bytes = .ok (count, behind) ∧
        skipSize count behind = .ok body ∧ readTags count.natAbs body = .ok (tags, rest) := by
  constructor
  · rintro ⟨_, ⟨hcount, hlength, number, size, body, hnumber, hsize, htags, rfl⟩, rfl⟩
    refine ⟨hcount, size ++ body ++ rest, body ++ rest, ?_, ?_, ?_⟩
    · rw [List.append_assoc]
      exact reads_number.read hnumber _
    · rw [List.append_assoc]
      exact skipSize_eq_ok_iff.mpr ⟨size, hsize, rfl⟩
    · exact (reads_tags _).read ⟨hlength, htags⟩ rest
  · rintro ⟨hcount, behind, body, hnumberRead, hsizeRead, htagsRead⟩
    obtain ⟨number, hnumber, rfl⟩ := (reads_number _ _ _).mp hnumberRead
    obtain ⟨size, hsize, rfl⟩ := skipSize_eq_ok_iff.mp hsizeRead
    obtain ⟨body, ⟨hlength, htags⟩, rfl⟩ := (reads_tags _ _ _ _).mp htagsRead
    exact ⟨number ++ (size ++ body),
      ⟨hcount, hlength, number, size, body, hnumber, hsize, htags, rfl⟩,
      by simp only [List.append_assoc]⟩

/-- A block count other than the least one announces its magnitude. -/
theorem blockSize_eq_ok_iff {size : Nat} :
    blockSize count = .ok size ↔ count ≠ minInt64 ∧ count.natAbs = size := by
  unfold blockSize
  split
  · next hleast => simp [hleast]
  · next hleast => simp [hleast]

/-- The least block count announces nothing, and reading panics at it. -/
theorem blockSize_eq_error_iff {failure : Failure Fault} :
    blockSize count = .error failure ↔
      count = minInt64 ∧ failure = .panicked negationOverflow := by
  unfold blockSize
  split
  · next hleast => simp [hleast, eq_comm]
  · next hleast => simp [hleast]

/-- Reads what stands behind a block count: the size if there is one, and the tags. -/
def readBlock (count : Int) (bytes : Bytes) : Except (Failure Fault) (List Tag × Bytes) := do
  let size ← blockSize count
  let bytes ← skipSize count bytes
  readTags size bytes

/-- A block is read behind any count but the least one: the size is skipped, and as many tags are
read as the count says. -/
theorem readBlock_eq_ok_iff :
    readBlock count bytes = .ok (tags, rest) ↔ count ≠ minInt64 ∧ ∃ body,
      skipSize count bytes = .ok body ∧ readTags count.natAbs body = .ok (tags, rest) := by
  unfold readBlock
  rw [bind_eq_ok]
  constructor
  · rintro ⟨size, hsize, h⟩
    obtain ⟨hleast, rfl⟩ := blockSize_eq_ok_iff.mp hsize
    obtain ⟨body, hbody, htags⟩ := bind_eq_ok.mp h
    exact ⟨hleast, body, Failure.lift_eq_ok.mp hbody, Failure.lift_eq_ok.mp htags⟩
  · rintro ⟨hleast, body, hbody, htags⟩
    refine ⟨_, blockSize_eq_ok_iff.mpr ⟨hleast, rfl⟩, bind_eq_ok.mpr ⟨body, ?_, ?_⟩⟩
    · exact Failure.lift_eq_ok.mpr hbody
    · exact Failure.lift_eq_ok.mpr htags

/-- Reading a block panics exactly behind the least count. -/
theorem readBlock_eq_panicked_iff {words : String} :
    readBlock count bytes = .error (.panicked words) ↔
      count = minInt64 ∧ words = negationOverflow := by
  unfold readBlock
  rw [bind_eq_error, blockSize_eq_error_iff, Failure.panicked.injEq, or_iff_left_iff_imp]
  rintro ⟨size, _, h⟩
  rcases bind_eq_error.mp h with hbody | ⟨body, _, htags⟩
  · exact absurd hbody (Failure.lift_ne_panicked _ words)
  · exact absurd htags (Failure.lift_ne_panicked _ words)

/-- A block that is read is spelled at the beginning of the bytes. -/
theorem spellsBlock_of_readBlock {behind : Bytes} (hcount : readNumber bytes = .ok (count, behind))
    (hsome : count ≠ 0) (hblock : readBlock count behind = .ok (tags, rest)) :
    ∃ front, SpellsBlock count tags front ∧ bytes = front ++ rest := by
  obtain ⟨_, body, hbody, htags⟩ := readBlock_eq_ok_iff.mp hblock
  exact exists_spellsBlock_iff.mpr ⟨hsome, behind, body, hcount, hbody, htags⟩

/-- A spelled block is read whatever follows it, unless its count is the least one. -/
theorem SpellsBlock.read (h : SpellsBlock count tags front) (rest : Bytes) :
    count ≠ 0 ∧ ∃ behind, readNumber (front ++ rest) = .ok (count, behind) ∧
      (count ≠ minInt64 → readBlock count behind = .ok (tags, rest)) := by
  obtain ⟨hsome, behind, body, hcount, hbody, htags⟩ := exists_spellsBlock_iff.mp ⟨front, h, rfl⟩
  exact ⟨hsome, behind, hcount, fun hleast =>
    readBlock_eq_ok_iff.mpr ⟨hleast, body, hbody, htags⟩⟩

/-- One round of reading blocks: the number zero ends it, and any other number begins a block that
is followed by another round. -/
theorem readBlocks_succ (fuel : Nat) (bytes : Bytes) :
    readBlocks (fuel + 1) bytes = liftM (readNumber bytes) >>= fun first =>
      if first.1 = 0 then .ok ([], first.2)
      else readBlock first.1 first.2 >>= fun block =>
        (readBlocks fuel block.2).map fun later => (block.1 ++ later.1, later.2) := by
  rw [readBlocks]
  cases readNumber bytes with
  | error fault => rfl
  | ok first =>
    obtain ⟨count, behind⟩ := first
    simp only [Failure.lift_ok, readBlock, bind, Except.bind]
    split
    · rfl
    · cases blockSize count with
      | error failure => rfl
      | ok size =>
        cases skipSize count behind with
        | error fault => rfl
        | ok body =>
          cases readTags size body with
          | error fault => rfl
          | ok block =>
            dsimp only [Failure.lift_ok]
            cases readBlocks fuel block.2 <;> rfl

/-- What one round of reading blocks gives. -/
theorem readBlocks_succ_eq_ok_iff {fuel : Nat} :
    readBlocks (fuel + 1) bytes = .ok (tags, rest) ↔
      ∃ count behind, readNumber bytes = .ok (count, behind) ∧
        (count = 0 ∧ tags = [] ∧ rest = behind ∨
          count ≠ 0 ∧ ∃ first others later, readBlock count behind = .ok (first, others) ∧
            readBlocks fuel others = .ok (later, rest) ∧ tags = first ++ later) := by
  rw [readBlocks_succ, bind_eq_ok]
  constructor
  · rintro ⟨⟨count, behind⟩, hcount, h⟩
    refine ⟨count, behind, Failure.lift_eq_ok.mp hcount, ?_⟩
    dsimp only at h
    split at h
    · next hzero =>
      cases h
      exact Or.inl ⟨hzero, rfl, rfl⟩
    · next hsome =>
      obtain ⟨⟨first, others⟩, hfirst, h⟩ := bind_eq_ok.mp h
      obtain ⟨⟨later, rest'⟩, hlater, h⟩ := map_eq_ok.mp h
      cases h
      exact Or.inr ⟨hsome, first, others, later, hfirst, hlater, rfl⟩
  · rintro ⟨count, behind, hcount, hround⟩
    refine ⟨(count, behind), Failure.lift_eq_ok.mpr hcount, ?_⟩
    rcases hround with ⟨hzero, rfl, rfl⟩ | ⟨hsome, first, others, later, hfirst, hlater, rfl⟩
    · exact if_pos hzero
    · dsimp only
      rw [if_neg hsome]
      exact bind_eq_ok.mpr ⟨_, hfirst, map_eq_ok.mpr ⟨_, hlater, rfl⟩⟩

/-- One round of reading blocks panics if its block does, or the rounds behind the block do. -/
theorem readBlocks_succ_eq_panicked_iff {fuel : Nat} {words : String} :
    readBlocks (fuel + 1) bytes = .error (.panicked words) ↔
      ∃ count behind, readNumber bytes = .ok (count, behind) ∧ count ≠ 0 ∧
        (readBlock count behind = .error (.panicked words) ∨
          ∃ first others, readBlock count behind = .ok (first, others) ∧
            readBlocks fuel others = .error (.panicked words)) := by
  rw [readBlocks_succ, bind_eq_error, or_iff_right (Failure.lift_ne_panicked _ words)]
  constructor
  · rintro ⟨⟨count, behind⟩, hcount, h⟩
    refine ⟨count, behind, Failure.lift_eq_ok.mp hcount, ?_⟩
    dsimp only at h
    split at h
    · cases h
    · next hsome =>
      refine ⟨hsome, (bind_eq_error.mp h).imp_right ?_⟩
      rintro ⟨⟨first, others⟩, hfirst, hlater⟩
      exact ⟨first, others, hfirst, map_eq_error.mp hlater⟩
  · rintro ⟨count, behind, hcount, hsome, hround⟩
    refine ⟨(count, behind), Failure.lift_eq_ok.mpr hcount, ?_⟩
    dsimp only
    rw [if_neg hsome]
    refine bind_eq_error.mpr (hround.imp_right ?_)
    rintro ⟨first, others, hfirst, hlater⟩
    exact ⟨(first, others), hfirst, map_eq_error.mpr hlater⟩

/-- More bytes behind the blocks stay unread. -/
theorem readBlocks_append {fuel fuel' : Nat} (hfuel : fuel ≤ fuel') (tail : Bytes)
    (h : readBlocks fuel bytes = .ok (tags, rest)) :
    readBlocks fuel' (bytes ++ tail) = .ok (tags, rest ++ tail) := by
  induction fuel generalizing fuel' bytes tags rest with
  | zero => cases h
  | succ fuel ih =>
    obtain ⟨fuel', rfl⟩ : ∃ less, fuel' = less + 1 := ⟨fuel' - 1, by omega⟩
    obtain ⟨count, behind, hcount, hround⟩ := readBlocks_succ_eq_ok_iff.mp h
    refine readBlocks_succ_eq_ok_iff.mpr
      ⟨count, behind ++ tail, reads_number.append hcount tail, ?_⟩
    rcases hround with ⟨hzero, hnone, rfl⟩ | ⟨hsome, first, others, later, hfirst, hlater, htags⟩
    · exact Or.inl ⟨hzero, hnone, rfl⟩
    · obtain ⟨hleast, body, hbody, hread⟩ := readBlock_eq_ok_iff.mp hfirst
      obtain ⟨size, hsize, rfl⟩ := skipSize_eq_ok_iff.mp hbody
      refine Or.inr ⟨hsome, first, others ++ tail, later, readBlock_eq_ok_iff.mpr
        ⟨hleast, body ++ tail, ?_, (reads_tags _).append hread tail⟩, ih (by omega) hlater, htags⟩
      exact skipSize_eq_ok_iff.mpr ⟨size, hsize, List.append_assoc _ _ _⟩

/-- The number that is read first is a block count. -/
theorem hasCount_of_readNumber (hcount : readNumber bytes = .ok (count, rest)) :
    HasCount count bytes := by
  obtain ⟨number, hnumber, rfl⟩ := (reads_number _ _ _).mp hcount
  exact .here hnumber

/-- Block counts stay where more bytes follow. -/
theorem HasCount.append (h : HasCount count bytes) (tail : Bytes) :
    HasCount count (bytes ++ tail) := by
  induction h with
  | here hnumber =>
    rw [List.append_assoc]
    exact .here hnumber
  | later hblock _ ih =>
    rw [List.append_assoc]
    exact .later hblock ih

/-- Blocks that are read are spelled by a beginning of the bytes. -/
theorem spells_of_readBlocks {fuel : Nat} (hread : readBlocks fuel bytes = .ok (tags, rest)) :
    ∃ taken, Spells tags taken ∧ bytes = taken ++ rest := by
  induction fuel generalizing bytes tags with
  | zero => cases hread
  | succ fuel ih =>
    obtain ⟨count, behind, hcount, hround⟩ := readBlocks_succ_eq_ok_iff.mp hread
    rcases hround with ⟨rfl, rfl, rfl⟩ | ⟨hsome, first, others, later, hfirst, hlater, rfl⟩
    · obtain ⟨number, hnumber, hbytes⟩ := (reads_number _ _ _).mp hcount
      exact ⟨number, .close hnumber, hbytes⟩
    · obtain ⟨front, hfront, rfl⟩ := spellsBlock_of_readBlock hcount hsome hfirst
      obtain ⟨taken, htaken, rfl⟩ := ih hlater
      exact ⟨front ++ taken, .block hfront htaken, (List.append_assoc _ _ _).symm⟩

/-- No bytes spell no number. -/
theorem ne_nil_of_spellsNumber {n : Int} (h : SpellsNumber n bytes) : bytes ≠ [] := by
  rintro rfl
  cases h

/-- A block takes at least the bytes of its count. -/
theorem ne_nil_of_spellsBlock (h : SpellsBlock count tags front) : front ≠ [] := by
  obtain ⟨_, _, number, _, _, hnumber, _, _, rfl⟩ := h
  exact List.append_ne_nil_of_left_ne_nil (ne_nil_of_spellsNumber hnumber) _

/-- Spelled blocks are read, whatever follows them. -/
theorem readBlocks_of_spells {fuel : Nat} (hspells : Spells tags front)
    (hfuel : front.length < fuel) (h : ¬ HasCount minInt64 (front ++ rest)) :
    readBlocks fuel (front ++ rest) = .ok (tags, rest) := by
  induction hspells generalizing fuel with
  | close hnumber =>
    obtain ⟨fuel, rfl⟩ : ∃ less, fuel = less + 1 := ⟨fuel - 1, by omega⟩
    exact readBlocks_succ_eq_ok_iff.mpr
      ⟨0, rest, reads_number.read hnumber rest, Or.inl ⟨rfl, rfl, rfl⟩⟩
  | @block count tags more front others hblock hothers ih =>
    obtain ⟨fuel, rfl⟩ : ∃ less, fuel = less + 1 := ⟨fuel - 1, by omega⟩
    rw [List.append_assoc] at h ⊢
    have hsize := List.length_pos_iff.mpr (ne_nil_of_spellsBlock hblock)
    have hroom : others.length < fuel := by
      rw [List.length_append] at hfuel
      omega
    obtain ⟨hsome, behind, hcount, hread⟩ := hblock.read (others ++ rest)
    have hleast : count ≠ minInt64 := by
      rintro rfl
      exact h (hasCount_of_readNumber hcount)
    have hlater := ih hroom fun hcount => h (.later hblock hcount)
    exact readBlocks_succ_eq_ok_iff.mpr ⟨count, behind, hcount,
      Or.inr ⟨hsome, tags, others ++ rest, more, hread hleast, hlater, rfl⟩⟩

/-- Reading blocks panics only at the least block count. -/
theorem hasCount_of_panicked {fuel : Nat} {words : String}
    (h : readBlocks fuel bytes = .error (.panicked words)) :
    words = negationOverflow ∧ HasCount minInt64 bytes := by
  induction fuel generalizing bytes with
  | zero => cases h
  | succ fuel ih =>
    obtain ⟨count, behind, hcount, hsome, hround⟩ := readBlocks_succ_eq_panicked_iff.mp h
    rcases hround with hfirst | ⟨first, others, hfirst, hlater⟩
    · obtain ⟨rfl, rfl⟩ := readBlock_eq_panicked_iff.mp hfirst
      exact ⟨rfl, hasCount_of_readNumber hcount⟩
    · obtain ⟨front, hfront, rfl⟩ := spellsBlock_of_readBlock hcount hsome hfirst
      obtain ⟨hwords, hrest⟩ := ih hlater
      exact ⟨hwords, .later hfront hrest⟩

/-- At the least block count reading blocks panics. -/
theorem panicked_of_hasCount (h : HasCount minInt64 bytes) {fuel : Nat}
    (hfuel : bytes.length < fuel) :
    readBlocks fuel bytes = .error (.panicked negationOverflow) := by
  induction h generalizing fuel with
  | @here number rest hnumber =>
    obtain ⟨fuel, rfl⟩ := Nat.exists_eq_add_one_of_ne_zero (Nat.ne_zero_of_lt hfuel)
    exact readBlocks_succ_eq_panicked_iff.mpr ⟨minInt64, rest, reads_number.read hnumber rest,
      by decide, Or.inl (readBlock_eq_panicked_iff.mpr ⟨rfl, rfl⟩)⟩
  | @later first tags front rest hblock _ ih =>
    obtain ⟨fuel, rfl⟩ := Nat.exists_eq_add_one_of_ne_zero (Nat.ne_zero_of_lt hfuel)
    obtain ⟨hsome, behind, hcount, hread⟩ := hblock.read rest
    refine readBlocks_succ_eq_panicked_iff.mpr ⟨first, behind, hcount, hsome, ?_⟩
    by_cases hleast : first = minInt64
    · exact Or.inl (readBlock_eq_panicked_iff.mpr ⟨hleast, rfl⟩)
    · have hsize := List.length_pos_iff.mpr (ne_nil_of_spellsBlock hblock)
      have hroom : rest.length < fuel := by
        rw [List.length_append] at hfuel
        omega
      exact Or.inr ⟨tags, rest, hread hleast, ih hroom⟩

/-- Bytes are read as a list of tags exactly if there are none, or blocks fill them. -/
theorem read_eq_ok_iff :
    read bytes = .ok tags ↔
      bytes = [] ∧ tags = [] ∨
        bytes ≠ [] ∧ readBlocks (bytes.length + 1) bytes = .ok (tags, []) := by
  unfold read
  split
  · next hnone => simp [hnone, eq_comm]
  · next hsome =>
    rw [bind_eq_ok]
    constructor
    · rintro ⟨⟨tags', rest⟩, hblocks, h⟩
      dsimp only at h
      split at h
      · next hrest =>
        cases h
        exact Or.inr ⟨hsome, hrest ▸ hblocks⟩
      · cases h
    · rintro (⟨hnone, _⟩ | ⟨_, hblocks⟩)
      · exact absurd hnone hsome
      · exact ⟨_, hblocks, rfl⟩

/-- Bytes with a list of tags are no list of tags when more bytes follow. -/
theorem read_append (hread : read bytes = .ok tags) (hbytes : bytes ≠ []) {tail : Bytes}
    (htail : tail ≠ []) : read (bytes ++ tail) = .error (.refused (.trailing tail.length)) := by
  rcases read_eq_ok_iff.mp hread with ⟨hnone, _⟩ | ⟨_, hblocks⟩
  · exact absurd hnone hbytes
  · have hfuel : bytes.length + 1 ≤ (bytes ++ tail).length + 1 := by
      rw [List.length_append]
      omega
    have hlonger := readBlocks_append hfuel tail hblocks
    unfold read
    rw [if_neg (List.append_ne_nil_of_left_ne_nil hbytes tail), hlonger]
    simp only [bind, Except.bind, List.nil_append, if_neg htail]

/-- A list of tags panics exactly if its blocks do. -/
theorem read_eq_panicked_iff_readBlocks (hsome : bytes ≠ []) {words : String} :
    read bytes = .error (.panicked words) ↔
      readBlocks (bytes.length + 1) bytes = .error (.panicked words) := by
  rw [read, if_neg hsome, bind_eq_error, or_iff_left_iff_imp]
  rintro ⟨⟨tags, rest⟩, _, h⟩
  dsimp only at h
  split at h
  · cases h
  · cases h

/-- Reading a list of tags panics exactly if the least number is among its block counts. -/
theorem read_eq_panicked_iff {words : String} :
    read bytes = .error (.panicked words) ↔
      words = negationOverflow ∧ HasCount minInt64 bytes := by
  by_cases hnone : bytes = []
  · subst hnone
    refine iff_of_false (fun h => by cases h) fun h => ?_
    have hpanic := panicked_of_hasCount h.2 (Nat.lt_succ_self 0)
    cases hpanic
  · rw [read_eq_panicked_iff_readBlocks hnone]
    constructor
    · exact hasCount_of_panicked
    · rintro ⟨rfl, h⟩
      exact panicked_of_hasCount h (Nat.lt_succ_self _)

/-- A list of tags is read from the bytes that spell it, and from no bytes where it has no tags; no
other bytes are read. In particular none are that end earlier or go on behind a list of tags. -/
theorem reads_exactly_spelled (h : ¬ HasCount minInt64 bytes) :
    (∀ tags, read bytes = .ok tags ↔ bytes = [] ∧ tags = [] ∨ Spells tags bytes) ∧
    ∀ tags, read bytes = .ok tags → bytes ≠ [] →
      (∀ front tail, front ≠ [] → tail ≠ [] → bytes = front ++ tail →
        ∃ fault, read front = .error (.refused fault)) ∧
      ∀ tail, tail ≠ [] → ∃ fault, read (bytes ++ tail) = .error (.refused fault) := by
  refine ⟨fun tags => ?_, fun tags hread hbytes => ⟨?_, ?_⟩⟩
  · rw [read_eq_ok_iff]
    refine or_congr_right ⟨?_, ?_⟩
    · rintro ⟨_, hblocks⟩
      obtain ⟨taken, htaken, hall⟩ := spells_of_readBlocks hblocks
      rw [hall, List.append_nil]
      exact htaken
    · intro hspells
      have hall : bytes ++ [] = bytes := List.append_nil bytes
      have hsome : bytes ≠ [] := by
        cases hspells with
        | close hnumber => exact ne_nil_of_spellsNumber hnumber
        | block hblock =>
          exact List.append_ne_nil_of_left_ne_nil (ne_nil_of_spellsBlock hblock) _
      have hblocks : readBlocks (bytes.length + 1) (bytes ++ []) = .ok (tags, []) :=
        readBlocks_of_spells hspells (Nat.lt_succ_self _) (by rwa [hall])
      rw [hall] at hblocks
      exact ⟨hsome, hblocks⟩
  · rintro front tail hfront htail rfl
    cases hshort : read front with
    | error failure =>
      cases failure with
      | refused fault => exact ⟨fault, rfl⟩
      | panicked words => exact absurd ((read_eq_panicked_iff.mp hshort).2.append tail) h
    | ok tags' =>
      rw [read_append hshort hfront htail] at hread
      cases hread
  · intro tail htail
    exact ⟨_, read_append hread hbytes htail⟩

/-- A block count is the number that is read first, or a block count of what a block read there
leaves. -/
theorem HasCount.step {first : Int} (h : HasCount count bytes)
    (hfirst : readNumber bytes = .ok (first, rest)) :
    count = first ∨ first ≠ 0 ∧ ∃ body tags others, skipSize first rest = .ok body ∧
      readTags first.natAbs body = .ok (tags, others) ∧ HasCount count others := by
  cases h with
  | here hnumber =>
    rw [reads_number.read hnumber] at hfirst
    cases hfirst
    exact Or.inl rfl
  | later hblock hothers =>
    obtain ⟨hsome, behind, body, hnumber, hbody, htags⟩ :=
      exists_spellsBlock_iff.mp ⟨_, hblock, rfl⟩
    rw [hnumber] at hfirst
    cases hfirst
    exact Or.inr ⟨hsome, body, _, _, hbody, htags, hothers⟩

/-- Two blocks, the first with a negative count and with a size that is wrong and longer than it
has to be. -/
def sized : Bytes := [3, 0x89, 0, 2, 65, 2, 66, 0, 0, 2, 2, 67, 0, 0]

/-- The two blocks are read as three tags, and not without the zero count behind them. -/
theorem sized_read :
    ¬ HasCount minInt64 sized ∧ Spells [⟨"A", "B"⟩, ⟨"", ""⟩, ⟨"C", ""⟩] sized ∧
      ∃ fault, read sized.dropLast = .error (.refused fault) := by
  have hleast : ¬ HasCount minInt64 sized := by
    intro h
    have hfirst : readNumber sized = .ok (-2, sized.drop 1) := rfl
    have hsecond : readNumber (sized.drop 9) = .ok (1, sized.drop 10) := rfl
    have hlast : readNumber (sized.drop 13) = .ok (0, []) := rfl
    rcases h.step hfirst with hcount | ⟨_, body, tags, others, hbody, htags, h⟩
    · exact absurd hcount (by decide)
    cases hbody
    cases htags
    rcases h.step hsecond with hcount | ⟨_, body, tags, others, hbody, htags, h⟩
    · exact absurd hcount (by decide)
    cases hbody
    cases htags
    rcases h.step hlast with hcount | ⟨hzero, _⟩
    · exact absurd hcount (by decide)
    · exact hzero rfl
  have hread : read sized = .ok [⟨"A", "B"⟩, ⟨"", ""⟩, ⟨"C", ""⟩] := rfl
  obtain ⟨hspelled, hends⟩ := reads_exactly_spelled hleast
  have hspells := ((hspelled _).mp hread).resolve_left (by decide)
  exact ⟨hleast, hspells, (hends _ hread (by decide)).1 _ [0] (by decide) (by decide) rfl⟩

end TagList

end TripArchive
