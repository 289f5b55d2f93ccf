import TripArchive.Proofs.Item.TagGrammar

/-!
# Hostile counts are bounded by the bytes

A block count may be any number of sixty-four bits, and any number of blocks may follow each other.
What bounds both loops over a list of tags is the number of bytes that are left: each round takes
at least one byte and each tag two. So reading any bytes ends, looks at each byte once at most and
adds no more tags than half the bytes (`reading_bounded`). It ends with tags or is refused, unless
one of the block counts is the least number, at which it panics.
-/

namespace TripArchive

namespace Varint

/-- The bytes at which reading groups looks, from the given shift on. -/
def seenGroups (shift : Nat) : Bytes → Bytes
  | [] => []
  | b :: rest => b :: if 63 < shift ∨ b.toNat < 128 then [] else seenGroups (shift + 7) rest

/-- Reading groups looks at a beginning of the bytes. -/
theorem seenGroups_isPrefix (shift : Nat) (bytes : Bytes) : seenGroups shift bytes <+: bytes := by
  induction bytes generalizing shift with
  | nil => exact List.prefix_rfl
  | cons b bytes ih =>
    rw [seenGroups, List.cons_prefix_cons]
    refine ⟨rfl, ?_⟩
    split
    · exact List.nil_prefix
    · exact ih (shift + 7)

/-- A number is read from all bytes at which reading its groups looks. -/
theorem seenGroups_of_readGroups {shift n : Nat} {bytes rest : Bytes}
    (h : readGroups shift bytes = .ok (n, rest)) : bytes = seenGroups shift bytes ++ rest := by
  induction bytes generalizing shift n with
  | nil => cases h
  | cons b bytes ih =>
    rw [readGroups] at h
    split at h
    · cases h
    · next hshift =>
      split at h
      · next hlast =>
        cases h
        rw [seenGroups, if_pos (Or.inr hlast)]
        rfl
      · next hmarked =>
        split at h
        · cases h
        · next higher _ hhigher =>
          cases h
          rw [seenGroups, if_neg (not_or.mpr ⟨hshift, hmarked⟩), List.cons_append, ← ih hhigher]

end Varint

namespace TagList

variable {α β ε : Type} {bytes rest : Bytes} {count : Int} {size : Nat} {tag : Tag}

/-! ### The bytes at which readers look -/

/-- Whether a reader looks at the given bytes, whether it then fails or not: they are a beginning of
its input, and what it gives is read from all of them. -/
structure Sees (reader : Bytes → Except ε (α × Bytes)) (seen : Bytes → Bytes) : Prop where
  isPrefix : ∀ bytes, seen bytes <+: bytes
  split : ∀ {bytes a rest}, reader bytes = .ok (a, rest) → bytes = seen bytes ++ rest

/-- The bytes at which two readers in sequence look: the second looks behind the first, and nowhere
if the first fails. -/
def seenThen (reader : Bytes → Except ε (α × Bytes)) (seen : Bytes → Bytes)
    (next : α → Bytes → Bytes) (bytes : Bytes) : Bytes :=
  seen bytes ++ match reader bytes with
    | .ok (a, rest) => next a rest
    | .error _ => []

section Sequence

variable {reader : Bytes → Except ε (α × Bytes)} {seen : Bytes → Bytes}
  {next : α × Bytes → Except ε (β × Bytes)} {seenNext : α → Bytes → Bytes} {a : α}

/-- If the first reader succeeds, both have looked at bytes. -/
theorem seenThen_of_ok (h : reader bytes = .ok (a, rest)) :
    seenThen reader seen seenNext bytes = seen bytes ++ seenNext a rest := by
  simp only [seenThen, h]

/-- Readers in sequence look at the bytes at which they look one after the other. -/
theorem Sees.bind (h : Sees reader seen)
    (hnext : ∀ a, Sees (fun rest => next (a, rest)) (seenNext a)) :
    Sees (fun bytes => reader bytes >>= next) (seenThen reader seen seenNext) where
  isPrefix bytes := by
    cases hread : reader bytes with
    | error fault =>
      simp only [seenThen, hread, List.append_nil]
      exact h.isPrefix bytes
    | ok first =>
      obtain ⟨a, behind⟩ := first
      have hsplit := h.split hread
      have hbehind := (List.prefix_append_right_inj (seen bytes)).mpr ((hnext a).isPrefix behind)
      rwa [← hsplit, ← seenThen_of_ok hread] at hbehind
  split hread := by
    obtain ⟨⟨a, behind⟩, hfirst, hsecond⟩ := bind_eq_ok.mp hread
    rw [seenThen_of_ok hfirst, List.append_assoc, ← (hnext a).split hsecond]
    exact h.split hfirst

end Sequence

/-- What is looked at and what is left add up to the bytes. -/
theorem Sees.length_eq {reader : Bytes → Except ε (α × Bytes)} {seen : Bytes → Bytes} {a : α}
    (h : Sees reader seen) (hread : reader bytes = .ok (a, rest)) :
    bytes.length = (seen bytes).length + rest.length := by
  rw [← List.length_append, ← h.split hread]

/-- A reader that never panics looks at the same bytes where others may. -/
theorem Sees.lift {reader : Bytes → Except ε (α × Bytes)} {seen : Bytes → Bytes}
    (h : Sees reader seen) :
    Sees (fun bytes => (liftM (reader bytes) : Except (Failure ε) (α × Bytes))) seen where
  isPrefix := h.isPrefix
  split hread := h.split (Failure.lift_eq_ok.mp hread)

/-- Giving a value looks at nothing. -/
theorem sees_ok (a : α) :
    Sees (fun rest => (.ok (a, rest) : Except ε (α × Bytes))) fun _ => [] where
  isPrefix _ := List.nil_prefix
  split h := by
    cases h
    rfl

/-- The bytes at which reading a number looks. -/
def seenNumber (bytes : Bytes) : Bytes := Varint.seenGroups 0 bytes

/-- Reading a number looks at its groups. -/
theorem sees_number : Sees readNumber seenNumber where
  isPrefix bytes := Varint.seenGroups_isPrefix 0 bytes
  split {bytes n rest} h := by
    have hread := mapError_eq_ok.mp h
    unfold Varint.read at hread
    split at hread
    · cases hread
    · next groups rest' hgroups =>
      cases hread
      exact Varint.seenGroups_of_readGroups hgroups

/-- A number that is read has at least one byte. -/
theorem length_seenNumber (h : readNumber bytes = .ok (count, rest)) :
    1 ≤ (seenNumber bytes).length := by
  cases bytes with
  | nil => cases h
  | cons b bytes => exact Nat.succ_le_succ (Nat.zero_le _)

/-- Reads the content of a text of the given length. -/
def readContent (length : Int) (bytes : Bytes) : Except Fault (String × Bytes) :=
  if length < 0 then .error (.negativeLength length)
  else if bytes.length < length.toNat then .error .overrun
  else do
    let text ← (Utf8.decode (bytes.take length.toNat)).mapError .text
    .ok (text, bytes.drop length.toNat)

/-- The bytes at which reading the content of a text looks; there are none if the length is refused
already. -/
def seenContent (length : Int) (bytes : Bytes) : Bytes :=
  if length < 0 ∨ bytes.length < length.toNat then [] else bytes.take length.toNat

/-- Reading the content of a text looks at as many bytes as its length says. -/
theorem sees_content (length : Int) : Sees (readContent length) (seenContent length) where
  isPrefix bytes := by
    unfold seenContent
    split
    · exact List.nil_prefix
    · exact List.take_prefix _ bytes
  split {bytes text rest} h := by
    unfold readContent at h
    split at h
    · cases h
    · next hsign =>
      split at h
      · cases h
      · next hroom =>
        obtain ⟨_, _, h⟩ := bind_eq_ok.mp h
        cases h
        rw [seenContent, if_neg (not_or.mpr ⟨hsign, hroom⟩), List.take_append_drop]

/-- The bytes at which reading a text looks. -/
def seenText : Bytes → Bytes := seenThen readNumber seenNumber seenContent

/-- Reading a text looks at its length and at its content. -/
theorem sees_text : Sees readText seenText := sees_number.bind sees_content

/-- A text that is read has at least one byte. -/
theorem length_seenText {text : String} (h : readText bytes = .ok (text, rest)) :
    1 ≤ (seenText bytes).length := by
  obtain ⟨⟨length, behind⟩, hlength, _⟩ := bind_eq_ok.mp h
  have hnumber := length_seenNumber hlength
  rw [seenText, seenThen_of_ok hlength, List.length_append]
  omega

/-- The bytes at which reading a tag looks. -/
def seenTag : Bytes → Bytes :=
  seenThen readText seenText fun _ => seenThen readText seenText fun _ _ => []

/-- Reading a tag looks at its name and at its value. -/
theorem sees_tag : Sees readTag seenTag := sees_text.bind fun _ => sees_text.bind fun _ => sees_ok _

/-- A tag that is read has at least two bytes. -/
theorem length_seenTag (h : readTag bytes = .ok (tag, rest)) : 2 ≤ (seenTag bytes).length := by
  obtain ⟨⟨name, behind⟩, hname, h⟩ := bind_eq_ok.mp h
  obtain ⟨⟨value, behind'⟩, hvalue, _⟩ := bind_eq_ok.mp h
  have hfirst := length_seenText hname
  have hsecond := length_seenText hvalue
  rw [seenTag, seenThen_of_ok hname, seenThen_of_ok hvalue, List.append_nil, List.length_append]
  omega

/-- The size of a block with the given count, and the bytes behind the byte size that may follow
it. -/
def readSize (count : Int) (bytes : Bytes) : Except (Failure Fault) (Nat × Bytes) := do
  let size ← blockSize count
  let bytes ← skipSize count bytes
  .ok (size, bytes)

/-- Reads what stands before the tags of a block, its count and, behind a negative one, its byte
size. It gives the number of the tags. -/
def readOpening (bytes : Bytes) : Except (Failure Fault) (Nat × Bytes) := do
  let (count, bytes) ← readNumber bytes
  readSize count bytes

/-- The bytes at which reading the size behind a block count looks. Behind the least count there are
none, since it panics before it. -/
def seenSize (count : Int) (bytes : Bytes) : Bytes :=
  if count < 0 ∧ count ≠ minInt64 then seenNumber bytes else []

/-- The bytes at which reading the opening of a block looks. -/
def seenOpening : Bytes → Bytes :=
  seenThen (fun bytes => (liftM (readNumber bytes) : Except (Failure Fault) (Int × Bytes)))
    seenNumber seenSize

/-- Reading the size behind a block count looks at the size. -/
theorem sees_size (count : Int) : Sees (readSize count) (seenSize count) where
  isPrefix bytes := by
    unfold seenSize
    split
    · exact sees_number.isPrefix bytes
    · exact List.nil_prefix
  split {bytes a rest} h := by
    obtain ⟨size, hsize, h⟩ := bind_eq_ok.mp h
    obtain ⟨body, hbody, h⟩ := bind_eq_ok.mp h
    cases h
    have hleast := (blockSize_eq_ok_iff.mp hsize).1
    have hskip := Failure.lift_eq_ok.mp hbody
    unfold skipSize at hskip
    unfold seenSize
    split at hskip
    · next hsign =>
      obtain ⟨⟨_, _⟩, hnumber, hskip⟩ := bind_eq_ok.mp hskip
      cases hskip
      rw [if_pos ⟨hsign, hleast⟩]
      exact sees_number.split hnumber
    · next hsign =>
      cases hskip
      rw [if_neg fun h => hsign h.1]
      rfl

/-- Reading the opening of a block looks at its numbers. -/
theorem sees_opening : Sees readOpening seenOpening := sees_number.lift.bind sees_size

/-- The opening of a block that is read has at least one byte. -/
theorem length_seenOpening (h : readOpening bytes = .ok (size, rest)) :
    1 ≤ (seenOpening bytes).length := by
  obtain ⟨⟨count, behind⟩, hnumber, _⟩ := bind_eq_ok.mp h
  have hcount := length_seenNumber (Failure.lift_eq_ok.mp hnumber)
  rw [seenOpening, seenThen_of_ok hnumber, List.length_append]
  omega

/-! ### The loops over blocks and tags -/

/-- What reading a list of tags does. -/
inductive Deed
  /-- Another round begins: a block count is asked for. -/
  | round
  /-- Bytes are looked at. -/
  | look (seen : Bytes)
  /-- A tag is added to the list. -/
  | push (tag : Tag)
  deriving DecidableEq, Repr

/-- The number of rounds. -/
def rounds : List Deed → Nat
  | [] => 0
  | .round :: deeds => rounds deeds + 1
  | .look _ :: deeds => rounds deeds
  | .push _ :: deeds => rounds deeds

/-- All bytes that are looked at, in order and as often as they are. -/
def seenBy : List Deed → Bytes
  | [] => []
  | .round :: deeds => seenBy deeds
  | .look seen :: deeds => seen ++ seenBy deeds
  | .push _ :: deeds => seenBy deeds

/-- The tags that are added, in order. -/
def pushed : List Deed → List Tag
  | [] => []
  | .round :: deeds => pushed deeds
  | .look _ :: deeds => pushed deeds
  | .push tag :: deeds => tag :: pushed deeds

/-- The course of both loops from a place in the bytes on where a block still holds `due` tags: what
they do, and what is left behind the zero count or how they fail. Nothing bounds the number of
their steps but the bytes themselves. -/
inductive Runs : Bytes → (due : Nat) → List Deed → Except (Failure Fault) Bytes → Prop
  /-- The next tag of the block. -/
  | tag {bytes rest : Bytes} {due : Nat} {tag : Tag} {deeds : List Deed}
      {result : Except (Failure Fault) Bytes} (hread : readTag bytes = .ok (tag, rest))
      (hrest : Runs rest due deeds result) :
      Runs bytes (due + 1) (.look (seenTag bytes) :: .push tag :: deeds) result
  /-- The next tag of the block cannot be read. -/
  | brokenTag {bytes : Bytes} {due : Nat} {fault : Fault} (hread : readTag bytes = .error fault) :
      Runs bytes (due + 1) [.look (seenTag bytes)] (.error (.refused fault))
  /-- The next block. -/
  | block {bytes body : Bytes} {size : Nat} {deeds : List Deed}
      {result : Except (Failure Fault) Bytes} (hread : readOpening bytes = .ok (size, body))
      (hsome : size ≠ 0) (hbody : Runs body size deeds result) :
      Runs bytes 0 (.round :: .look (seenOpening bytes) :: deeds) result
  /-- The zero count. -/
  | close {bytes rest : Bytes} (hread : readOpening bytes = .ok (0, rest)) :
      Runs bytes 0 [.round, .look (seenOpening bytes)] (.ok rest)
  /-- The numbers that open a block cannot be read, or its count is the least one. -/
  | brokenOpening {bytes : Bytes} {failure : Failure Fault}
      (hread : readOpening bytes = .error failure) :
      Runs bytes 0 [.round, .look (seenOpening bytes)] (.error failure)

/-- Reads the tags that a block still holds and the blocks behind them. -/
def readFrom (fuel due : Nat) (bytes : Bytes) : Except (Failure Fault) (List Tag × Bytes) := do
  let (tags, bytes) ← readTags due bytes
  let (more, bytes) ← readBlocks fuel bytes
  .ok (tags ++ more, bytes)

/-- Where no tag is due, the next block is read. -/
theorem readFrom_zero (fuel : Nat) (bytes : Bytes) :
    readFrom fuel 0 bytes = readBlocks fuel bytes := by
  simp only [readFrom, readTags, Failure.lift_ok, bind, Except.bind, List.nil_append]
  cases readBlocks fuel bytes <;> rfl

/-- A tag that is due is read first. -/
theorem readFrom_succ (fuel due : Nat) (bytes : Bytes) :
    readFrom fuel (due + 1) bytes = liftM (readTag bytes) >>= fun next =>
      (readFrom fuel due next.2).map fun rest => (next.1 :: rest.1, rest.2) := by
  simp only [readFrom, readTags, bind, Except.bind]
  cases readTag bytes with
  | error fault => rfl
  | ok next =>
    simp only [Failure.lift_ok]
    cases readTags due next.2 with
    | error fault => rfl
    | ok tags =>
      simp only [Failure.lift_ok]
      cases readBlocks fuel tags.2 with
      | error failure => rfl
      | ok more => rfl

/-- Reading blocks reads the opening of one, and behind a count other than zero what it holds. -/
theorem readBlocks_opening (fuel : Nat) (bytes : Bytes) :
    readBlocks (fuel + 1) bytes = readOpening bytes >>= fun opening =>
      if opening.1 = 0 then .ok ([], opening.2) else readFrom fuel opening.1 opening.2 := by
  rw [readBlocks_succ, readOpening]
  cases readNumber bytes with
  | error fault => rfl
  | ok number =>
    obtain ⟨count, behind⟩ := number
    simp only [Failure.lift_ok, readBlock, readSize, bind, Except.bind]
    by_cases hzero : count = 0
    · subst hzero
      rfl
    rw [if_neg hzero]
    cases hsize : blockSize count with
    | error failure => rfl
    | ok size =>
      have hsome : size ≠ 0 := by
        have hmagnitude := (blockSize_eq_ok_iff.mp hsize).2
        omega
      cases skipSize count behind with
      | error fault => rfl
      | ok body =>
        simp only [Failure.lift_ok, readFrom, bind, Except.bind, if_neg hsome]
        cases readTags size body with
        | error fault => rfl
        | ok tags =>
          simp only [Failure.lift_ok]
          cases readBlocks fuel tags.2 <;> rfl

/-- From every place on the loops have a course. -/
theorem exists_runs (bytes : Bytes) (due : Nat) : ∃ deeds result, Runs bytes due deeds result := by
  cases due with
  | zero =>
    cases hread : readOpening bytes with
    | error failure => exact ⟨_, _, .brokenOpening hread⟩
    | ok opening =>
      obtain ⟨size, body⟩ := opening
      by_cases hnone : size = 0
      · subst hnone
        exact ⟨_, _, .close hread⟩
      · have hseen := length_seenOpening hread
        have hlength := sees_opening.length_eq hread
        obtain ⟨deeds, result, hbody⟩ := exists_runs body size
        exact ⟨_, _, .block hread hnone hbody⟩
  | succ due =>
    cases hread : readTag bytes with
    | error fault => exact ⟨_, _, .brokenTag hread⟩
    | ok next =>
      obtain ⟨tag, rest⟩ := next
      have hseen := length_seenTag hread
      have hlength := sees_tag.length_eq hread
      obtain ⟨deeds, result, hrest⟩ := exists_runs rest due
      exact ⟨_, _, .tag hread hrest⟩
  termination_by bytes.length
  decreasing_by all_goals omega

namespace Runs

variable {due : Nat} {deeds : List Deed} {result : Except (Failure Fault) Bytes}

/-- The loops look at the bytes from the front on, each of them once at most. -/
theorem seenBy_isPrefix (h : Runs bytes due deeds result) : seenBy deeds <+: bytes := by
  induction h with
  | @tag bytes rest _ _ deeds _ hread _ ih =>
    have hbehind := (List.prefix_append_right_inj (seenTag bytes)).mpr ih
    rwa [← sees_tag.split hread] at hbehind
  | @brokenTag bytes =>
    rw [seenBy, seenBy, List.append_nil]
    exact sees_tag.isPrefix bytes
  | @block bytes body _ deeds _ hread _ _ ih =>
    have hbehind := (List.prefix_append_right_inj (seenOpening bytes)).mpr ih
    rwa [← sees_opening.split hread] at hbehind
  | @close bytes | @brokenOpening bytes =>
    rw [seenBy, seenBy, seenBy, List.append_nil]
    exact sees_opening.isPrefix bytes

/-- Each round takes a byte and each tag two. Only the round in which the loops fail may have found
no byte. -/
theorem cost_le (h : Runs bytes due deeds result) :
    rounds deeds + 2 * (pushed deeds).length ≤ (seenBy deeds).length + 1 ∧
      ∀ rest, result = .ok rest →
        rounds deeds + 2 * (pushed deeds).length ≤ (seenBy deeds).length := by
  induction h with
  | tag hread _ ih =>
    obtain ⟨hall, hdone⟩ := ih
    have htag := length_seenTag hread
    simp only [rounds, pushed, seenBy, List.length_append, List.length_cons]
    exact ⟨by omega, fun rest hrest => by have := hdone rest hrest; omega⟩
  | brokenTag =>
    simp only [rounds, pushed, List.length_nil]
    exact ⟨by omega, nofun⟩
  | block hread _ _ ih =>
    obtain ⟨hall, hdone⟩ := ih
    have hopening := length_seenOpening hread
    simp only [rounds, pushed, seenBy, List.length_append]
    exact ⟨by omega, fun rest hrest => by have := hdone rest hrest; omega⟩
  | close hread =>
    have hopening := length_seenOpening hread
    simp only [rounds, pushed, seenBy, List.append_nil, List.length_nil]
    exact ⟨by omega, fun _ _ => by omega⟩
  | brokenOpening =>
    simp only [rounds, pushed, List.length_nil]
    exact ⟨by omega, nofun⟩

/-- The loops end with the zero count, which has a round of its own. -/
theorem one_le_rounds (h : Runs bytes due deeds (.ok rest)) : 1 ≤ rounds deeds := by
  generalize hresult : Except.ok rest = result at h
  induction h with
  | tag _ _ ih => exact ih hresult
  | block _ _ _ ih => exact Nat.le_succ_of_le (ih hresult)
  | close => exact Nat.le_refl 1
  | brokenTag | brokenOpening => cases hresult

/-- Between two blocks a round begins. If tags are added and the loops end well, so does another
one. -/
theorem rounds_of_none_due (h : Runs bytes 0 deeds result) :
    1 ≤ rounds deeds ∧
      ∀ rest, result = .ok rest → pushed deeds ≠ [] → 2 ≤ rounds deeds := by
  cases h with
  | block _ _ hbody =>
    refine ⟨Nat.succ_le_succ (Nat.zero_le _), ?_⟩
    rintro rest rfl _
    exact Nat.succ_le_succ hbody.one_le_rounds
  | close => exact ⟨Nat.le_refl 1, fun _ _ hsome => absurd rfl hsome⟩
  | brokenOpening => exact ⟨Nat.le_refl 1, nofun⟩

/-- Reading follows the loops, with any fuel above the number of bytes. -/
theorem readFrom_eq (h : Runs bytes due deeds result) {fuel : Nat} (hfuel : bytes.length < fuel) :
    readFrom fuel due bytes = result.map fun rest => (pushed deeds, rest) := by
  induction h generalizing fuel with
  | @tag _ rest _ tag deeds result hread _ ih =>
    have hlength := sees_tag.length_eq hread
    have hrest := ih (show rest.length < fuel by omega)
    rw [readFrom_succ, hread]
    simp only [Failure.lift_ok, bind, Except.bind, hrest, pushed]
    cases result <;> rfl
  | brokenTag hread =>
    rw [readFrom_succ, hread]
    rfl
  | @block _ body _ _ _ hread hsome _ ih =>
    obtain ⟨fuel, rfl⟩ := Nat.exists_eq_add_one_of_ne_zero (Nat.ne_zero_of_lt hfuel)
    have hseen := length_seenOpening hread
    have hlength := sees_opening.length_eq hread
    have hbody := ih (show body.length < fuel by omega)
    rw [readFrom_zero, readBlocks_opening, hread]
    simp only [bind, Except.bind, if_neg hsome, hbody, pushed]
  | close hread | brokenOpening hread =>
    obtain ⟨fuel, rfl⟩ := Nat.exists_eq_add_one_of_ne_zero (Nat.ne_zero_of_lt hfuel)
    rw [readFrom_zero, readBlocks_opening, hread]
    rfl

end Runs

/-- The course of reading a list of tags from all of its bytes: what is done, and the tags or why
there are none. -/
inductive Course : Bytes → List Deed → Except (Failure Fault) (List Tag) → Prop
  /-- No bytes stand for no tags. -/
  | none : Course [] [] (.ok [])
  /-- The zero count is the end of the bytes. -/
  | whole {bytes : Bytes} {deeds : List Deed} (hsome : bytes ≠ [])
      (hruns : Runs bytes 0 deeds (.ok [])) : Course bytes deeds (.ok (pushed deeds))
  /-- Bytes are left behind the zero count. -/
  | trailing {bytes rest : Bytes} {deeds : List Deed} (hsome : bytes ≠ []) (hrest : rest ≠ [])
      (hruns : Runs bytes 0 deeds (.ok rest)) :
      Course bytes deeds (.error (.refused (.trailing rest.length)))
  /-- A count, a size or a tag cannot be read, or a count is the least one. -/
  | failed {bytes : Bytes} {deeds : List Deed} {failure : Failure Fault} (hsome : bytes ≠ [])
      (hruns : Runs bytes 0 deeds (.error failure)) : Course bytes deeds (.error failure)

/-- Reading has a course. -/
theorem exists_course (bytes : Bytes) : ∃ deeds, Course bytes deeds (read bytes) := by
  by_cases hsome : bytes = []
  · subst hsome
    exact ⟨_, .none⟩
  obtain ⟨deeds, result, hruns⟩ := exists_runs bytes 0
  have hread := hruns.readFrom_eq (Nat.lt_succ_self bytes.length)
  rw [readFrom_zero] at hread
  refine ⟨deeds, ?_⟩
  rw [read, if_neg hsome, hread]
  cases result with
  | error failure => exact .failed hsome hruns
  | ok rest =>
    simp only [Except.map, bind, Except.bind]
    split
    · next hrest =>
      subst hrest
      exact .whole hsome hruns
    · next hrest => exact .trailing hsome hrest hruns

/-- What a course costs: its rounds and its tags are bounded by the bytes, at which it looks from
the front on and once. -/
theorem Course.bounded {deeds : List Deed} {answer : Except (Failure Fault) (List Tag)}
    (h : Course bytes deeds answer) :
    seenBy deeds <+: bytes ∧ rounds deeds ≤ bytes.length + 1 ∧
      (pushed deeds).length ≤ bytes.length / 2 ∧
      ∀ tags, answer = .ok tags → tags = pushed deeds ∧
        (tags ≠ [] → 2 * tags.length + 2 ≤ bytes.length) := by
  have hbounds : ∀ {result : Except (Failure Fault) Bytes}, Runs bytes 0 deeds result →
      seenBy deeds <+: bytes ∧ rounds deeds ≤ bytes.length + 1 ∧
        (pushed deeds).length ≤ bytes.length / 2 := by
    intro result hruns
    have hseen := hruns.seenBy_isPrefix
    have hlength := hseen.length_le
    have hcost := hruns.cost_le.1
    have hround := hruns.rounds_of_none_due.1
    exact ⟨hseen, by omega, by omega⟩
  cases h with
  | none =>
    refine ⟨List.prefix_rfl, Nat.zero_le _, Nat.zero_le _, ?_⟩
    rintro tags hanswer
    cases hanswer
    exact ⟨rfl, fun hsome => absurd rfl hsome⟩
  | whole _ hruns =>
    obtain ⟨hseen, hrounds, hpushed⟩ := hbounds hruns
    refine ⟨hseen, hrounds, hpushed, ?_⟩
    rintro tags hanswer
    cases hanswer
    refine ⟨rfl, fun hsome => ?_⟩
    have hlength := hseen.length_le
    have hcost := hruns.cost_le.2 _ rfl
    have hround := hruns.rounds_of_none_due.2 _ rfl hsome
    omega
  | trailing _ _ hruns | failed _ hruns =>
    obtain ⟨hseen, hrounds, hpushed⟩ := hbounds hruns
    exact ⟨hseen, hrounds, hpushed, nofun⟩

/-- Reading a list of tags panics at the least block count. Otherwise it gives tags or a fault. -/
theorem read_ends (bytes : Bytes) :
    HasCount minInt64 bytes ∧ read bytes = .error (.panicked negationOverflow) ∨
      ¬ HasCount minInt64 bytes ∧
        ((∃ tags, read bytes = .ok tags) ∨ ∃ fault, read bytes = .error (.refused fault)) := by
  by_cases hleast : HasCount minInt64 bytes
  · exact Or.inl ⟨hleast, read_eq_panicked_iff.mpr ⟨rfl, hleast⟩⟩
  refine Or.inr ⟨hleast, ?_⟩
  cases hread : read bytes with
  | ok tags => exact Or.inl ⟨tags, rfl⟩
  | error failure =>
    cases failure with
    | refused fault => exact Or.inr ⟨fault, rfl⟩
    | panicked words => exact absurd (read_eq_panicked_iff.mp hread).2 hleast

/-- Whatever counts and lengths the bytes declare, reading them as a list of tags takes a course to
its end: to the tags that it has added, to a fault, or to a panic if and only if a block count is
the least number. It looks at each byte once at most, begins at most one round more than there are
bytes, and adds at most one tag for every two bytes; where some tags are read, two more bytes are
there for the count of a block and for the count that ends the list. -/
theorem reading_bounded (bytes : Bytes) :
    (HasCount minInt64 bytes ∧ read bytes = .error (.panicked negationOverflow) ∨
      ¬ HasCount minInt64 bytes ∧
        ((∃ tags, read bytes = .ok tags) ∨ ∃ fault, read bytes = .error (.refused fault))) ∧
    ∃ deeds, Course bytes deeds (read bytes) ∧ seenBy deeds <+: bytes ∧
      rounds deeds ≤ bytes.length + 1 ∧ (pushed deeds).length ≤ bytes.length / 2 ∧
      ∀ tags, read bytes = .ok tags → tags = pushed deeds ∧
        (tags ≠ [] → 2 * tags.length + 2 ≤ bytes.length) := by
  obtain ⟨deeds, hcourse⟩ := exists_course bytes
  exact ⟨read_ends bytes, deeds, hcourse, hcourse.bounded⟩

/-- The greatest count before a single byte asks for a tag that is not there. -/
example : read [0xfe, 0xff, 0xff, 0xff, 0xff, 0xff, 0xff, 0xff, 0xff, 0x01, 0x00] =
    .error (.refused (.varint .truncated)) := by
  rfl

end TagList

end TripArchive
