import TripArchive.Package
import TripArchive.Proofs.Gzip.Member
import TripArchive.Proofs.Gzip.Stored

/-!
# Containers of many members

Reading a member is local, so each member ends where it ends by itself, whatever follows it.
A container is read exactly if it is a sequence of members, and what stands behind a sequence of
members is read as if it stood alone (`decompress_members_append`).
-/

namespace TripArchive.Gzip

open Input

variable {name : Option Bytes} {entry : Entry} {entries : List Entry} {bytes rest : Bytes}

/-! ### Headers -/

/-- Taking a number of bytes leaves as many less. -/
theorem length_of_takeBytes {n : Nat} {taken : Bytes} (h : takeBytes n bytes = .ok (taken, rest)) :
    rest.length + n = bytes.length := by
  unfold takeBytes at h
  split at h
  · cases h
    rw [List.length_drop]
    omega
  · cases h

/-- Reading up to a NUL takes one byte at a time. -/
theorem untilNul_eq (room : Nat) (bytes : Bytes) :
    untilNul room bytes = takeBytes 1 bytes >>= fun (b, rest) =>
      if b = [0] then .ok ([], rest)
      else match room with
        | 0 => .error .corrupt
        | room + 1 => untilNul room rest >>= fun (field, rest) => .ok (b ++ field, rest) := by
  obtain _ | ⟨b, rest⟩ := bytes
  · cases room <;> rfl
  · have hone : takeBytes 1 (b :: rest) = .ok ([b], rest) := rfl
    simp only [hone, bind, Except.bind, List.cons.injEq, and_true]
    cases room <;> rfl

/-- Reading up to a NUL is local. -/
theorem local_untilNul (room : Nat) : Local (untilNul room) := by
  induction room with
  | zero =>
    rw [funext (untilNul_eq 0)]
    exact (local_takeBytes 1).bind fun _ _ => local_ite (fun _ => local_ok _) fun _ => local_error _
  | succ room ih =>
    rw [funext (untilNul_eq (room + 1))]
    exact (local_takeBytes 1).bind fun _ _ =>
      local_ite (fun _ => local_ok _) fun _ => ih.bind fun _ _ => local_ok _

/-- A field that the flags announce is read locally. -/
theorem local_optional {α : Type} (flags : UInt8) (bit : Nat) (absent : α)
    {read : Bytes → Except Fault (α × Bytes)} (hread : Local read) :
    Local (optional flags bit absent read) :=
  local_ite (fun _ => hread) fun _ => local_ok absent

/-- Reading the extra field is local. -/
theorem local_extraField : Local extraField :=
  (local_takeBytes 2).bind fun _ _ => (local_takeBytes _).bind fun _ _ => local_ok ()

/-- Reading a name or a comment is local. -/
theorem local_textField : Local textField :=
  (local_untilNul maxFieldBytes).bind fun _ _ => local_ok _

/-- Reads what may stand between the fixed part of a header and its checksum, and gives the bytes of
the name. -/
def optionalFields (flags : UInt8) (fields : Bytes) : Except Fault (Option Bytes × Bytes) := do
  let (_, fields) ← optional flags 2 () extraField fields
  let (name, fields) ← optional flags 3 none textField fields
  let (_, fields) ← optional flags 4 none textField fields
  .ok (name, fields)

/-- Reading the optional fields is local. -/
theorem local_optionalFields (flags : UInt8) : Local (optionalFields flags) :=
  (local_optional flags 2 () local_extraField).bind fun _ _ =>
    (local_optional flags 3 none local_textField).bind fun name _ =>
      (local_optional flags 4 none local_textField).bind fun _ _ => local_ok name

/-- Reads the fixed part of a header and gives the flags. -/
def fixedPart (bytes : Bytes) : Except Fault (UInt8 × Bytes) := do
  let (fixed, fields) ← takeBytes 10 bytes
  if fixed.take 3 = [0x1f, 0x8b, 8] ∧ fixed.getD 3 0 < 0x20 then .ok (fixed.getD 3 0, fields)
  else .error .corrupt

/-- Reading the fixed part of a header is local. -/
theorem local_fixedPart : Local fixedPart :=
  (local_takeBytes 10).bind fun fixed _ =>
    local_ite (fun _ => local_ok (fixed.getD 3 0)) fun _ => local_error _

/-- Reads a header up to its checksum, and gives the flags and the bytes of the name. -/
def headerFields (bytes : Bytes) : Except Fault ((UInt8 × Option Bytes) × Bytes) := do
  let (flags, fields) ← fixedPart bytes
  let (name, fields) ← optionalFields flags fields
  .ok ((flags, name), fields)

/-- Reading a header up to its checksum is local. -/
theorem local_headerFields : Local headerFields :=
  local_fixedPart.bind fun flags _ =>
    (local_optionalFields flags).bind fun name _ => local_ok (flags, name)

/-- Reads the checksum of a header, if there is one, and gives the bytes of the name; `before` is
the header up to it. -/
def headerEnd (before : Bytes) (flags : UInt8) (name : Option Bytes) (fields : Bytes) :
    Except Fault (Option Bytes × Bytes) := do
  let (_, fields) ← optional flags 1 () (fun fields => do
    let (sum, rest) ← takeBytes 2 fields
    if Bytes.toNatLE sum = (Crc32.checksum before).toNat % 65536 then .ok ((), rest)
    else .error .corrupt) fields
  .ok (name, fields)

/-- Reading the checksum of a header is local. -/
theorem local_headerEnd (before : Bytes) (flags : UInt8) (name : Option Bytes) :
    Local (headerEnd before flags name) :=
  (local_optional flags 1 () ((local_takeBytes 2).bind fun _ _ =>
    local_ite (fun _ => local_ok ()) fun _ => local_error _)).bind fun _ _ => local_ok name

/-- A header is its fields and its checksum, which is over all bytes before it. -/
theorem readHeader_eq (bytes : Bytes) :
    readHeader bytes = headerFields bytes >>= fun ((flags, name), fields) =>
      headerEnd (bytes.take (bytes.length - fields.length)) flags name fields := by
  match bytes with
  | [] | [_] | [_, _] | [_, _, _] | [_, _, _, _] | [_, _, _, _, _] | [_, _, _, _, _, _]
  | [_, _, _, _, _, _, _] | [_, _, _, _, _, _, _, _] | [_, _, _, _, _, _, _, _, _] => rfl
  | id₁ :: id₂ :: method :: flags :: b₁ :: b₂ :: b₃ :: b₄ :: b₅ :: b₆ :: fields =>
    have hfixed : fixedPart (id₁ :: id₂ :: method :: flags :: b₁ :: b₂ :: b₃ :: b₄ :: b₅ :: b₆ ::
        fields) = if [id₁, id₂, method] = [0x1f, 0x8b, 8] ∧ flags < 0x20 then .ok (flags, fields)
          else .error .corrupt := rfl
    rw [readHeader, headerFields, hfixed]
    simp only [List.cons.injEq, and_true, and_assoc]
    by_cases hvalid : id₁ = 0x1f ∧ id₂ = 0x8b ∧ method = 8 ∧ flags < 0x20
    · rw [if_pos hvalid, if_pos hvalid]
      simp only [optionalFields, bind_assoc]
      rfl
    · rw [if_neg hvalid, if_neg hvalid]
      rfl

/-- Reading a header goes on behind at least its fixed part. -/
theorem readHeader_advances (h : readHeader bytes = .ok (name, rest)) :
    rest <:+ bytes ∧ rest.length + 10 ≤ bytes.length := by
  rw [readHeader_eq] at h
  obtain ⟨⟨⟨flags, name⟩, fields⟩, hfields, hend⟩ := bind_eq_ok.mp h
  obtain ⟨⟨flags, fields'⟩, hfixed, hfields⟩ := bind_eq_ok.mp hfields
  obtain ⟨⟨name, fields⟩, hoptional, hfields⟩ := bind_eq_ok.mp hfields
  cases hfields
  have hfixedLength : fields'.length + 10 ≤ bytes.length := by
    obtain ⟨⟨fixed, fields⟩, htake, hfixed⟩ := bind_eq_ok.mp hfixed
    dsimp only at hfixed
    split at hfixed
    · cases hfixed
      exact Nat.le_of_eq (length_of_takeBytes htake)
    · cases hfixed
  have hoptional := (local_optionalFields flags).advances hoptional
  have hrest : rest <:+ fields' := ((local_headerEnd _ flags name).advances hend).trans hoptional
  have hless := hrest.length_le
  exact ⟨hrest.trans (local_fixedPart.advances hfixed), by omega⟩

/-- Reading a header is local. -/
theorem local_readHeader : Local readHeader where
  advances h := (readHeader_advances h).1
  shrinks h := Nat.mul_le_mul_left 8 (readHeader_advances h).1.length_le
  stops bytes := by
    rw [funext readHeader_eq]
    refine (local_headerFields.stops bytes).bind
      (fun _ hend => (local_headerEnd _ _ _).advances hend) fun header fields _ => ?_
    -- What follows is no part of the bytes before the checksum.
    have hbefore (other : Bytes) :
        (bytes ++ other).take ((bytes ++ other).length - (fields ++ other).length) =
          bytes.take (bytes.length - fields.length) := by
      rw [List.length_append, List.length_append, Nat.add_sub_add_right]
      exact List.take_append_of_le_length (Nat.sub_le _ _)
    show Stops fun other => headerEnd ((bytes ++ other).take
      ((bytes ++ other).length - (fields ++ other).length)) header.1 header.2 (fields ++ other)
    simp only [hbefore]
    exact (local_headerEnd _ header.1 header.2).stops fields

/-! ### Members -/

/-- Reading a member is local. -/
theorem local_readMember : Local readMember :=
  local_readHeader.bind fun _ _ => local_inflate.bind fun _ _ => (local_takeBytes 8).bind fun _ _ =>
    local_ite (fun _ => local_ok _) fun _ => local_error _

/-- A member has at least the fixed part of its header and its trailer. -/
theorem length_of_readMember (h : readMember bytes = .ok (entry, rest)) :
    rest.length + 18 ≤ bytes.length := by
  obtain ⟨⟨name, body⟩, hheader, h⟩ := bind_eq_ok.mp h
  obtain ⟨⟨data, behind⟩, hinflate, h⟩ := bind_eq_ok.mp h
  obtain ⟨⟨sum, rest'⟩, htrailer, h⟩ := bind_eq_ok.mp h
  obtain rfl : rest' = rest := by
    dsimp only at h
    split at h
    · cases h
      rfl
    · cases h
  have hbody := (readHeader_advances hheader).2
  have hbehind := (local_inflate.advances hinflate).length_le
  have hrest := length_of_takeBytes htrailer
  change behind.length ≤ body.length at hbehind
  omega

/-- Whether a byte string is one member with the given entry: the reader takes all of it. -/
def IsMember (member : Bytes) (entry : Entry) : Prop := readMember member = .ok (entry, [])

/-- A member is read whatever follows it. -/
theorem IsMember.readMember_append {member : Bytes} (h : IsMember member entry) (tail : Bytes) :
    readMember (member ++ tail) = .ok (entry, tail) :=
  local_readMember.append (by rwa [List.append_nil]) tail

/-- What is read is a member at the front of the input. -/
theorem readMember_eq_ok : readMember bytes = .ok (entry, rest) ↔
    ∃ member, IsMember member entry ∧ bytes = member ++ rest := by
  constructor
  · intro h
    obtain ⟨member, rfl⟩ : rest <:+ bytes := local_readMember.advances h
    have halone := local_readMember.append h []
    rw [List.append_nil] at halone
    exact ⟨member, halone, rfl⟩
  · rintro ⟨member, hmember, rfl⟩
    exact hmember.readMember_append rest

/-! ### Containers -/

/-- A sequence of members and their entries, in order. -/
inductive Members : Bytes → List Entry → Prop
  | none : Members [] []
  | more {member rest : Bytes} {entry : Entry} {entries : List Entry} :
      IsMember member entry → Members rest entries → Members (member ++ rest) (entry :: entries)

/-- Expanding a container reads its first member and goes on behind it. No member is read without
using any input, so it never stalls. -/
theorem decompress_eq (h : bytes ≠ []) :
    decompress bytes = readMember bytes >>= fun (entry, rest) =>
      (decompress rest).map fun entries => entry :: entries := by
  rw [decompress, if_neg h]
  cases hread : readMember bytes with
  | error fault => rfl
  | ok next =>
    have hless := length_of_readMember hread
    simp only [bind, Except.bind]
    rw [if_pos (by omega)]
    cases decompress next.2 <;> rfl

/-- Behind a member, expanding goes on as if the rest stood alone. -/
theorem decompress_member_append {member : Bytes} (h : IsMember member entry) (tail : Bytes) :
    decompress (member ++ tail) = (decompress tail).map fun entries => entry :: entries := by
  have hread := h.readMember_append tail
  have hnonempty : member ++ tail ≠ [] := by
    intro hnil
    have hlength := length_of_readMember hread
    rw [hnil, List.length_nil] at hlength
    omega
  rw [decompress_eq hnonempty, hread]
  rfl

/-- Behind a sequence of members, expanding goes on as if the rest stood alone. -/
theorem decompress_members_append (h : Members bytes entries) (tail : Bytes) :
    decompress (bytes ++ tail) = (decompress tail).map fun more => entries ++ more := by
  induction h with
  | none =>
    rw [List.nil_append]
    cases decompress tail <;> rfl
  | more hmember _ ih =>
    rw [List.append_assoc, decompress_member_append hmember, ih]
    cases decompress tail <;> rfl

/-- Expanding nothing gives no entries. -/
theorem decompress_nil : decompress [] = .ok [] := by
  rw [decompress, if_pos rfl]

/-- What a container is expanded to are the entries of its members. -/
theorem members_of_decompress {bytes : Bytes} {entries : List Entry}
    (h : decompress bytes = .ok entries) : Members bytes entries := by
  by_cases hnil : bytes = []
  · subst hnil
    rw [decompress_nil] at h
    cases h
    exact .none
  · rw [decompress_eq hnil] at h
    obtain ⟨⟨entry, rest⟩, hread, h⟩ := bind_eq_ok.mp h
    obtain ⟨more, hrest, rfl⟩ := map_eq_ok.mp h
    obtain ⟨member, hmember, rfl⟩ := readMember_eq_ok.mp hread
    have hless := length_of_readMember hread
    exact .more hmember (members_of_decompress hrest)
  termination_by bytes.length

/-- A container is expanded exactly if it is a sequence of members. -/
theorem decompress_eq_ok : decompress bytes = .ok entries ↔ Members bytes entries := by
  refine ⟨members_of_decompress, fun h => ?_⟩
  have hwhole := decompress_members_append h []
  rw [List.append_nil, decompress_nil] at hwhole
  simpa [Except.map] using hwhole

/-! ### Written containers -/

/-- The member with a name and data whose stream a function has written. With that of a compressor
it is the one that `compress` writes. -/
def memberBy (compressor : Bytes → Bytes) (part : Name × Bytes) : Bytes :=
  header part.1 ++ compressor part.2 ++ trailer part.2

/-- The entry of a part. -/
def entryOf (part : Name × Bytes) : Entry := ⟨some part.1.text, part.2⟩

section Written

variable {compressor : Bytes → Bytes} {parts : List (Name × Bytes)}

/-- A written member is one, for any compressor whose streams are expanded to their data. -/
theorem isMember_memberBy (hcompressor : ∀ data, inflate (compressor data) = .ok (data, []))
    {part : Name × Bytes} (hshort : part.1.Short) :
    IsMember (memberBy compressor part) (entryOf part) := by
  have hread : readMember (compress ⟨compressor, hcompressor⟩ part.2 part.1 ++ []) =
      .ok (entryOf part, []) := readMember_compress hshort part.2 []
  rwa [List.append_nil] at hread

/-- Members that are written one after the other are a sequence of members. -/
theorem members_written (hcompressor : ∀ data, inflate (compressor data) = .ok (data, []))
    (hshort : ∀ part ∈ parts, part.1.Short) :
    Members (parts.flatMap (memberBy compressor)) (parts.map entryOf) := by
  induction parts with
  | nil => exact .none
  | cons part parts ih =>
    rw [List.flatMap_cons, List.map_cons]
    exact .more (isMember_memberBy hcompressor (hshort part List.mem_cons_self))
      (ih fun part hpart => hshort part (List.mem_cons_of_mem _ hpart))

/-- Written members followed by any bytes: if these are a sequence of members, their entries follow
those that were written; if not, expanding the whole fails as expanding them alone does. -/
theorem decompress_written_append
    (hcompressor : ∀ data, inflate (compressor data) = .ok (data, []))
    (hshort : ∀ part ∈ parts, part.1.Short) (tail : Bytes) :
    (∀ entries, Members tail entries → Package.decompress tail = .ok entries ∧
      Package.decompress (parts.flatMap (memberBy compressor) ++ tail) =
        .ok (parts.map entryOf ++ entries)) ∧
    ((∀ entries, ¬Members tail entries) → ∃ error, Package.decompress tail = .error error ∧
      Package.decompress (parts.flatMap (memberBy compressor) ++ tail) = .error error) := by
  have hwhole := decompress_members_append (members_written hcompressor hshort) tail
  unfold Package.decompress
  rw [hwhole]
  constructor
  · intro entries htail
    rw [decompress_eq_ok.mpr htail]
    exact ⟨rfl, rfl⟩
  · intro hno
    cases htail : decompress tail with
    | error fault => exact ⟨.decompression fault, rfl, rfl⟩
    | ok entries => exact absurd (decompress_eq_ok.mp htail) (hno entries)

/-- Two members, followed by nothing and followed by a byte that begins no member. -/
theorem decompress_two_members_append :
    let parts : List (Name × Bytes) := [(⟨"a", by decide⟩, [1, 2]), (⟨"b", by decide⟩, [])]
    let written := parts.flatMap fun part => compress .stored part.2 part.1
    Package.decompress (written ++ []) = .ok [⟨some "a", [1, 2]⟩, ⟨some "b", []⟩] ∧
      ∃ error, Package.decompress [0] = .error error ∧
        Package.decompress (written ++ [0]) = .error error := by
  intro parts written
  have hshort : ∀ part ∈ parts, part.1.Short := by
    simp only [parts, List.forall_mem_cons, List.not_mem_nil, false_implies, implies_true, and_true,
      Name.Short]
    decide
  have hzero (entries : List Entry) : ¬Members [0] entries := by
    intro h
    have hread : readMember [0] = .error .truncated := rfl
    have hok := decompress_eq_ok.mpr h
    rw [decompress_eq (List.cons_ne_nil 0 []), hread] at hok
    cases hok
  exact ⟨((decompress_written_append Compressor.stored.expands hshort []).1 [] .none).2,
    (decompress_written_append Compressor.stored.expands hshort [0]).2 hzero⟩

end Written

end TripArchive.Gzip
