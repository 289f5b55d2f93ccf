import Mathlib.Data.List.Chain
import TripArchive.Proofs.Gzip.Container

/-!
# Expanding comes to an end

Every member that is read has a header of at least ten bytes and a trailer of eight, so the input
that remains behind it is a proper end of the input. The loop over the members therefore ends by
itself (`decompress_ends`): its check for a member that used no input never finds one.
-/

namespace TripArchive.Gzip

variable {α β : Type}

/-! ### Faults of readers -/

/-- Whether an answer leaves it to the loop over the members to say that a member used no input. -/
def Unstalled (answer : Except Fault α) : Prop := answer ≠ .error .stalled

/-- A sequence of steps stalls only where one of them does. -/
theorem Unstalled.bind {first : Except Fault α} {second : α → Except Fault β}
    (hfirst : Unstalled first) (hsecond : ∀ a, Unstalled (second a)) :
    Unstalled (first >>= second) := by
  cases first with
  | error fault =>
    intro h
    cases h
    exact hfirst rfl
  | ok a => exact hsecond a

/-- A choice between answers stalls only where one of them does. -/
theorem unstalled_ite {p : Prop} [Decidable p] {answer other : Except Fault α}
    (hanswer : Unstalled answer) (hother : Unstalled other) :
    Unstalled (if p then answer else other) := by
  split
  · exact hanswer
  · exact hother

/-- A value is no fault. -/
theorem unstalled_ok (a : α) : Unstalled (.ok a : Except Fault α) := nofun

/-- An input that ends too early is read as such. -/
theorem unstalled_truncated : Unstalled (.error .truncated : Except Fault α) := nofun

/-- An input that breaks the format is read as such. -/
theorem unstalled_corrupt : Unstalled (.error .corrupt : Except Fault α) := nofun

/-- Reading a number of bits never stalls. -/
theorem unstalled_number (count : Nat) (s : Bits) : Unstalled (s.number count) := by
  induction count generalizing s with
  | zero => exact unstalled_ok _
  | succ count ih =>
    rw [Bits.number]
    cases s.next? with
    | none => exact unstalled_truncated
    | some next => exact (ih next.2).bind fun _ => unstalled_ok _

/-- Following a word never stalls. -/
theorem unstalled_walk (tree : Tree) (s : Bits) : Unstalled (tree.walk s) := by
  induction tree generalizing s with
  | empty => exact unstalled_corrupt
  | leaf symbol => exact unstalled_ok _
  | node zero one hzero hone =>
    rw [Tree.walk]
    rcases s.next? with _ | ⟨_ | _, t⟩
    · exact unstalled_truncated
    · exact hzero t
    · exact hone t

/-- Reading a symbol never stalls. -/
theorem unstalled_read (tree : Tree) (s : Bits) : Unstalled (tree.read s) := by
  rw [Tree.read]
  split
  · split <;> nofun
  · exact unstalled_walk tree s

/-- Reading a value from a range never stalls. -/
theorem unstalled_ranged (ranges : List (Nat × Nat)) (symbol : Nat) (s : Bits) :
    Unstalled (ranged ranges symbol s) := by
  rw [ranged]
  cases ranges[symbol]? with
  | none => exact unstalled_corrupt
  | some range => exact (unstalled_number range.2 s).bind fun _ => unstalled_ok _

/-- Reading the symbols of a block never stalls. -/
theorem unstalled_symbols (literals distances : Tree) (fuel : Nat) (s : Bits)
    (out : Array UInt8) : Unstalled (symbols literals distances fuel s out) := by
  induction fuel generalizing s out with
  | zero => exact unstalled_truncated
  | succ fuel ih =>
    exact (unstalled_read literals s).bind fun _ =>
      unstalled_ite (ih _ _) <| unstalled_ite (unstalled_ok _) <|
        (unstalled_ranged _ _ _).bind fun _ => (unstalled_read _ _).bind fun _ =>
          (unstalled_ranged _ _ _).bind fun _ => ih _ _

/-- Reading numbers of three bits never stalls. -/
theorem unstalled_threeBits (count : Nat) (s : Bits) : Unstalled (threeBits count s) := by
  induction count generalizing s with
  | zero => exact unstalled_ok _
  | succ count ih =>
    exact (unstalled_number 3 s).bind fun _ => (ih _).bind fun _ => unstalled_ok _

/-- Reading the lengths of words never stalls. -/
theorem unstalled_wordLengths (code : Tree) (total fuel : Nat) (s : Bits) (known : List Nat) :
    Unstalled (wordLengths code total fuel s known) := by
  induction fuel generalizing s known with
  | zero =>
    exact unstalled_ite (unstalled_ok _) (unstalled_ite unstalled_truncated unstalled_corrupt)
  | succ fuel ih =>
    refine unstalled_ite (unstalled_ok _) <| unstalled_ite unstalled_corrupt <|
      (unstalled_read code s).bind fun _ => unstalled_ite (ih _ _) <| unstalled_ite ?_ <|
        unstalled_ite ((unstalled_number 3 _).bind fun _ => ih _ _) <|
          (unstalled_number 7 _).bind fun _ => ih _ _
    cases known with
    | nil => exact unstalled_corrupt
    | cons last known => exact (unstalled_number 2 _).bind fun _ => ih _ _

/-- Giving a code by the lengths of its words never stalls. -/
theorem unstalled_ofLengths? (lone : Bool) (lengths : List Nat) :
    Unstalled (Tree.ofLengths? lone lengths) := unstalled_ite (unstalled_ok _) unstalled_corrupt

/-- Reading the codes of a block never stalls. -/
theorem unstalled_sentCodes (s : Bits) : Unstalled (sentCodes s) :=
  (unstalled_number 5 s).bind fun _ => (unstalled_number 5 _).bind fun _ =>
    (unstalled_number 4 _).bind fun _ => unstalled_ite unstalled_corrupt <|
      (unstalled_threeBits _ _).bind fun _ => (unstalled_ofLengths? _ _).bind fun _ =>
        (unstalled_wordLengths _ _ _ _ _).bind fun _ => (unstalled_ofLengths? _ _).bind fun _ =>
          (unstalled_ofLengths? _ _).bind fun _ => unstalled_ok _

/-- Taking a number of bytes never stalls. -/
theorem unstalled_takeBytes (n : Nat) (bytes : Bytes) : Unstalled (takeBytes n bytes) :=
  unstalled_ite (unstalled_ok _) unstalled_truncated

/-- Reading a block of any kind never stalls. -/
theorem unstalled_block (kind : Nat) (s : Bits) (out : Array UInt8) :
    Unstalled (block kind s out) := by
  match kind with
  | 0 =>
    show Unstalled (stored s.rest out)
    rw [stored_eq]
    exact (unstalled_takeBytes 2 _).bind fun _ => (unstalled_takeBytes 2 _).bind fun _ =>
      unstalled_ite ((unstalled_takeBytes _ _).bind fun _ => unstalled_ok _) unstalled_corrupt
  | 1 => exact unstalled_symbols _ _ _ _ _
  | 2 => exact (unstalled_sentCodes s).bind fun _ => unstalled_symbols _ _ _ _ _
  | _ + 3 => exact unstalled_corrupt

/-- Reading the blocks of a stream never stalls. -/
theorem unstalled_blocks (fuel : Nat) (s : Bits) (out : Array UInt8) :
    Unstalled (blocks fuel s out) := by
  induction fuel generalizing s out with
  | zero => exact unstalled_truncated
  | succ fuel ih =>
    exact (unstalled_number 1 s).bind fun _ => (unstalled_number 2 _).bind fun _ =>
      (unstalled_block _ _ _).bind fun _ => unstalled_ite (unstalled_ok _) (ih _ _)

/-- Expanding a stream never stalls. -/
theorem unstalled_inflate (bytes : Bytes) : Unstalled (inflate bytes) :=
  (unstalled_blocks _ _ _).bind fun _ => unstalled_ok _

/-- Reading up to a NUL never stalls. -/
theorem unstalled_untilNul (room : Nat) (bytes : Bytes) : Unstalled (untilNul room bytes) := by
  induction room generalizing bytes with
  | zero =>
    rw [untilNul_eq]
    exact (unstalled_takeBytes 1 bytes).bind fun _ =>
      unstalled_ite (unstalled_ok _) unstalled_corrupt
  | succ room ih =>
    rw [untilNul_eq]
    exact (unstalled_takeBytes 1 bytes).bind fun _ =>
      unstalled_ite (unstalled_ok _) ((ih _).bind fun _ => unstalled_ok _)

/-- Reading a field that the flags announce stalls only where reading the field does. -/
theorem unstalled_optional (flags : UInt8) (bit : Nat) (absent : α)
    {read : Bytes → Except Fault (α × Bytes)} (hread : ∀ bytes, Unstalled (read bytes))
    (bytes : Bytes) : Unstalled (optional flags bit absent read bytes) :=
  unstalled_ite (hread bytes) (unstalled_ok _)

/-- Reading a header never stalls. -/
theorem unstalled_readHeader (bytes : Bytes) : Unstalled (readHeader bytes) := by
  have hextra (bytes : Bytes) : Unstalled (extraField bytes) :=
    (unstalled_takeBytes 2 bytes).bind fun _ => (unstalled_takeBytes _ _).bind fun _ =>
      unstalled_ok _
  have htext (bytes : Bytes) : Unstalled (textField bytes) :=
    (unstalled_untilNul _ bytes).bind fun _ => unstalled_ok _
  have hfixed (bytes : Bytes) : Unstalled (fixedPart bytes) :=
    (unstalled_takeBytes 10 bytes).bind fun _ => unstalled_ite (unstalled_ok _) unstalled_corrupt
  have hoptional (flags : UInt8) (bytes : Bytes) : Unstalled (optionalFields flags bytes) :=
    (unstalled_optional flags 2 () hextra bytes).bind fun _ =>
      (unstalled_optional flags 3 none htext _).bind fun _ =>
        (unstalled_optional flags 4 none htext _).bind fun _ => unstalled_ok _
  have hfields : Unstalled (headerFields bytes) :=
    (hfixed bytes).bind fun _ => (hoptional _ _).bind fun _ => unstalled_ok _
  rw [readHeader_eq]
  refine hfields.bind fun header => ?_
  exact (unstalled_optional _ 1 () (fun fields => (unstalled_takeBytes 2 fields).bind fun _ =>
    unstalled_ite (unstalled_ok _) unstalled_corrupt) _).bind fun _ => unstalled_ok _

/-- Reading a member never stalls. -/
theorem unstalled_readMember (bytes : Bytes) : Unstalled (readMember bytes) :=
  (unstalled_readHeader bytes).bind fun _ => (unstalled_inflate _).bind fun _ =>
    (unstalled_takeBytes 8 _).bind fun _ => unstalled_ite (unstalled_ok _) unstalled_corrupt

/-! ### Members -/

variable {header stream input rest : Bytes} {entry : Entry} {later : List Bytes}
  {result : Except Fault (List Entry)}

/-- The parts of a member at the front of an input, in order: the header, the stream that is
expanded to the data, and the trailer. -/
structure LaidOut (header stream : Bytes) (entry : Entry) (rest input : Bytes) : Prop where
  input_eq : input = header ++ (stream ++ (trailer entry.data ++ rest))
  header_read : ∃ name, readHeader input = .ok (name, stream ++ (trailer entry.data ++ rest))
  stream_read : inflate (stream ++ (trailer entry.data ++ rest)) =
    .ok (entry.data, trailer entry.data ++ rest)
  header_length : 10 ≤ header.length
  trailer_length : (trailer entry.data).length = 8

/-- What is taken stands before what is left. -/
theorem append_of_takeBytes {n : Nat} {bytes taken : Bytes}
    (h : takeBytes n bytes = .ok (taken, rest)) : bytes = taken ++ rest := by
  unfold takeBytes at h
  split at h
  · cases h
    exact (List.take_append_drop n bytes).symm
  · cases h

/-- A member that is read is laid out at the front of the input. -/
theorem exists_laidOut (h : readMember input = .ok (entry, rest)) :
    ∃ header stream, LaidOut header stream entry rest input := by
  obtain ⟨⟨name, body⟩, hheader, h⟩ := bind_eq_ok.mp h
  obtain ⟨⟨data, behind⟩, hinflate, h⟩ := bind_eq_ok.mp h
  obtain ⟨⟨sum, rest'⟩, htrailer, h⟩ := bind_eq_ok.mp h
  dsimp only at h
  split at h
  · next hsum =>
    cases h
    obtain ⟨⟨header, hinput⟩, hlength⟩ := readHeader_advances hheader
    obtain ⟨stream, hbody⟩ : behind <:+ body := local_inflate.advances hinflate
    have hbehind : behind = trailer data ++ rest := hsum ▸ append_of_takeBytes htrailer
    subst hbehind hbody hinput
    refine ⟨header, stream, rfl, ⟨name, hheader⟩, hinflate, ?_, by simp [trailer]⟩
    have hwhole : (header ++ (stream ++ (trailer data ++ rest))).length =
        header.length + (stream ++ (trailer data ++ rest)).length := List.length_append
    omega
  · cases h

/-- Whether an input goes on behind a member: with a proper end of it that is at least eighteen
bytes shorter. -/
structure GoesOn (input rest : Bytes) : Prop where
  isSuffix : rest <:+ input
  proper : rest ≠ input
  shorter : rest.length + 18 ≤ input.length

/-- Behind a member the input goes on. -/
theorem LaidOut.goesOn (h : LaidOut header stream entry rest input) : GoesOn input rest := by
  have hheader := h.header_length
  have htrailer := h.trailer_length
  have hlength : rest.length + 18 ≤ input.length := by
    rw [h.input_eq]
    simp only [List.length_append]
    omega
  refine ⟨⟨header ++ (stream ++ trailer entry.data), ?_⟩, ?_, hlength⟩
  · simp only [h.input_eq, List.append_assoc]
  · rintro rfl
    omega

/-! ### The loop over the members -/

/-- The course of the loop over the members, from an input on: the inputs to which it comes behind
each member, up to the end of the container or a member that cannot be read, and what it gives.
Nothing in it asks whether a member has used any input. -/
inductive Course : Bytes → List Bytes → Except Fault (List Entry) → Prop
  | finished : Course [] [] (.ok [])
  | failed {input : Bytes} {fault : Fault} (hsome : input ≠ [])
      (hread : readMember input = .error fault) : Course input [] (.error fault)
  | member {input rest : Bytes} {entry : Entry} {later : List Bytes}
      {result : Except Fault (List Entry)} (hsome : input ≠ [])
      (hread : readMember input = .ok (entry, rest)) (hrest : Course rest later result) :
      Course input (rest :: later) (result.map fun entries => entry :: entries)

/-- From every input on the loop has a course, and expanding follows it. -/
theorem exists_course (input : Bytes) : ∃ later, Course input later (decompress input) := by
  by_cases hnil : input = []
  · subst hnil
    rw [decompress_nil]
    exact ⟨[], .finished⟩
  · rw [decompress_eq hnil]
    cases hread : readMember input with
    | error fault => exact ⟨[], .failed hnil hread⟩
    | ok next =>
      obtain ⟨entry, rest⟩ := next
      have hshorter := length_of_readMember hread
      obtain ⟨later, hrest⟩ := exists_course rest
      exact ⟨rest :: later, .member hnil hread hrest⟩
  termination_by input.length

namespace Course

/-- The input goes on from each round to the next. -/
theorem isChain (h : Course input later result) : (input :: later).IsChain GoesOn := by
  induction h with
  | finished => exact .singleton _
  | failed => exact .singleton _
  | member _ hread _ ih =>
    obtain ⟨header, stream, hlaid⟩ := exists_laidOut hread
    exact .cons_cons hlaid.goesOn ih

/-- Each member that is read takes eighteen bytes of the input. -/
theorem length_le (h : Course input later result) : 18 * later.length ≤ input.length := by
  induction h with
  | finished => exact Nat.le_refl 0
  | failed => exact Nat.zero_le _
  | member _ hread _ ih =>
    have hshorter := length_of_readMember hread
    rw [List.length_cons]
    omega

/-- There is one entry for each member that is read. -/
theorem length_entries (h : Course input later result) {entries : List Entry}
    (hresult : result = .ok entries) : entries.length = later.length := by
  induction h generalizing entries with
  | finished =>
    cases hresult
    rfl
  | failed => cases hresult
  | member _ _ _ ih =>
    obtain ⟨others, hothers, rfl⟩ := map_eq_ok.mp hresult
    rw [List.length_cons, List.length_cons, ih hothers]

/-- The loop fails only as reading a member does. -/
theorem unstalled (h : Course input later result) : Unstalled result := by
  induction h with
  | finished => exact unstalled_ok []
  | failed _ hread =>
    intro hstalled
    cases hstalled
    exact unstalled_readMember _ hread
  | @member _ _ _ _ result _ _ _ ih =>
    cases result with
    | ok entries => exact unstalled_ok _
    | error fault =>
      intro hstalled
      cases hstalled
      exact ih rfl

end Course

/-- Expanding any bytes comes to an end. The loop over the members has a course without any check
for progress: from each round to the next it goes on with a proper end of its input, behind a
member with a header of ten bytes or more and a trailer of eight. So it reads at most one member
for every eighteen bytes, whether it then fails or not, and never finds a member that used no
input. -/
theorem decompress_ends (bytes : Bytes) :
    (∀ input entry rest, readMember input = .ok (entry, rest) →
      ∃ header stream, LaidOut header stream entry rest input) ∧
    ∃ later result, Course bytes later result ∧
      Package.decompress bytes = result.mapError .decompression ∧
      (bytes :: later).IsChain GoesOn ∧ later.length ≤ bytes.length / 18 ∧
      (∀ entries, Package.decompress bytes = .ok entries →
        entries.length = later.length ∧ entries.length ≤ bytes.length / 18) ∧
      Package.decompress bytes ≠ .error (.decompression .stalled) := by
  refine ⟨fun _ _ _ hread => exists_laidOut hread, ?_⟩
  obtain ⟨later, hcourse⟩ := exists_course bytes
  have hmembers : later.length ≤ bytes.length / 18 := by
    have hlength := hcourse.length_le
    omega
  refine ⟨later, decompress bytes, hcourse, rfl, hcourse.isChain, hmembers, ?_, ?_⟩
  · intro entries hentries
    have hcount := hcourse.length_entries (mapError_eq_ok.mp hentries)
    exact ⟨hcount, hcount ▸ hmembers⟩
  · intro hstalled
    have hunstalled := hcourse.unstalled
    unfold Package.decompress at hstalled
    cases hdecompress : decompress bytes with
    | ok entries =>
      rw [hdecompress] at hstalled
      cases hstalled
    | error fault =>
      rw [hdecompress] at hstalled hunstalled
      cases hstalled
      exact hunstalled rfl

/-- Behind two written members the loop has come to two inputs, eighteen bytes apart. -/
theorem decompress_two_members_ends :
    let written := compress .stored [1, 2] ⟨"a", by decide⟩ ++ compress .stored [] ⟨"b", by decide⟩
    Package.decompress written = .ok [⟨some "a", [1, 2]⟩, ⟨some "b", []⟩] ∧
      ∃ later, (written :: later).IsChain GoesOn ∧ later.length = 2 ∧
        2 ≤ written.length / 18 := by
  intro written
  have hread : Package.decompress written = .ok [⟨some "a", [1, 2]⟩, ⟨some "b", []⟩] := by
    have hfirst : Name.Short ⟨"a", by decide⟩ := by
      unfold Name.Short
      decide
    have hsecond : Name.Short ⟨"b", by decide⟩ := by
      unfold Name.Short
      decide
    unfold Package.decompress
    rw [decompress_compress_append hfirst, decompress_compress hsecond]
    rfl
  obtain ⟨later, _, _, _, hchain, _, hentries, _⟩ := (decompress_ends written).2
  obtain ⟨hcount, hlength⟩ := hentries _ hread
  exact ⟨hread, later, hchain, hcount.symm, hlength⟩

end TripArchive.Gzip
