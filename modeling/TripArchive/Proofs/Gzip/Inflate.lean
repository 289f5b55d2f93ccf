import TripArchive.Proofs.Gzip.Local

/-!
# Expanding stops at the end of the stream

Every part of `inflate` is a local reader: codes and lengths, the symbols of a block, the blocks. A
code that is given by the lengths of its words has no empty word, so each symbol takes a bit, and
each block takes three; hence both loops are local, and so is `inflate`.
-/

namespace TripArchive.Gzip

namespace Tree

/-- Whether at least one bit is followed before a word ends. -/
def IsNode : Tree → Prop
  | node _ _ => True
  | _ => False

/-- Adding a word of at least one bit to a code without an empty word adds none. -/
theorem isNode_insert (symbol : Nat) (bit : Bool) (word : List Bool) (tree : Tree) :
    (tree.insert symbol (bit :: word)).IsNode := by
  cases bit <;> cases tree <;> exact trivial

/-- The words of one positive length make no empty word. -/
theorem isNode_insertAll (length first : Nat) (symbols : List Nat) {tree : Tree}
    (h : tree.IsNode) : (insertAll (length + 1) first symbols tree).IsNode := by
  unfold insertAll
  induction symbols.zipIdx generalizing tree with
  | nil => exact h
  | cons next rest ih => exact ih (isNode_insert next.1 _ _ tree)

/-- The words from a positive length on make no empty word. -/
theorem isNode_assign (lengths : List Nat) (count length first : Nat) {tree : Tree}
    (h : tree.IsNode) : (assign lengths count (length + 1) first tree).IsNode := by
  induction count generalizing length first tree with
  | zero => exact h
  | succ count ih => exact ih (length + 1) _ (isNode_insertAll length first _ h)

/-- A code given by lengths has no empty word. -/
theorem isNode_ofLengths (lengths : List Nat) : (ofLengths lengths).IsNode :=
  isNode_assign lengths longest 0 0 trivial

/-- A code that is sent along has no empty word. -/
theorem isNode_of_ofLengths? {lone : Bool} {lengths : List Nat} {tree : Tree}
    (h : ofLengths? lone lengths = .ok tree) : tree.IsNode := by
  simp only [ofLengths?] at h
  split at h
  · cases h
    exact isNode_ofLengths lengths
  · cases h

/-- Reading a symbol takes at least one bit. -/
theorem IsNode.read_lt {tree : Tree} (htree : tree.IsNode) {s t : Bits} {symbol : Nat}
    (h : tree.read s = .ok (symbol, t)) : t.left < s.left := by
  obtain _ | _ | ⟨zero, one⟩ := tree
  · cases htree
  · cases htree
  · rw [read_eq_ok, walk_node] at h
    obtain ⟨⟨bit, s'⟩, htake, hwalk⟩ := bind_eq_ok.mp h
    have hless : s'.left + 1 = s.left := Bits.left_take htake
    have hshrinks : t.left ≤ s'.left := (local_walk _).shrinks hwalk
    omega

end Tree

/-- Reading a value from a range is local. -/
theorem local_ranged (ranges : List (Nat × Nat)) (symbol : Nat) : Local (ranged ranges symbol) := by
  unfold ranged
  cases ranges[symbol]? with
  | none => exact local_error .corrupt
  | some range => exact (Bits.local_number range.2).bind fun n _ => local_ok _

/-! ### Symbols -/

/-- What a symbol of the literal code stands for: a literal, the end of the block, or a repetition
whose distance is read. -/
def meaning (distances : Tree) (out : Array UInt8) (symbol : Nat) (s : Bits) :
    Except Fault ((Bool × Array UInt8) × Bits) :=
  if symbol < 256 then .ok ((true, out.push (UInt8.ofNat symbol)), s)
  else if symbol = 256 then .ok ((false, out), s)
  else do
    let (length, s) ← ranged lengthRanges (symbol - 257) s
    let (symbol, s) ← distances.read s
    let (distance, s) ← ranged distanceRanges symbol s
    .ok ((true, copy length distance out), s)

/-- Reads a symbol and what it stands for, and says whether the block goes on. -/
def symbolStep (literals distances : Tree) (out : Array UInt8) (s : Bits) :
    Except Fault ((Bool × Array UInt8) × Bits) := do
  let (symbol, s) ← literals.read s
  meaning distances out symbol s

/-- The symbols of a block are read one after the other. -/
theorem symbols_eq_repeated (literals distances : Tree) (fuel : Nat) (s : Bits)
    (out : Array UInt8) :
    symbols literals distances fuel s out =
      repeated (symbolStep literals distances) fuel out s := by
  induction fuel generalizing s out with
  | zero => rfl
  | succ fuel ih =>
    rw [symbols, repeated, symbolStep, bind_assoc]
    congr 1
    funext next
    obtain ⟨symbol, s⟩ := next
    dsimp only [meaning]
    split
    · exact ih _ _
    · split
      · rfl
      · simp only [bind_assoc, ih]
        rfl

/-- What a symbol stands for is read locally. -/
theorem local_meaning (distances : Tree) (out : Array UInt8) (symbol : Nat) :
    Local (meaning distances out symbol) :=
  local_ite (fun _ => local_ok _) fun _ =>
    local_ite (fun _ => local_ok _) fun _ =>
      (local_ranged lengthRanges _).bind fun _ _ =>
        distances.local_read.bind fun symbol _ =>
          (local_ranged distanceRanges symbol).bind fun _ _ => local_ok _

/-- Reading the symbols of a block is local. -/
theorem local_symbols {literals : Tree} (hliterals : literals.IsNode) (distances : Tree)
    (out : Array UInt8) : Local fun s : Bits => symbols literals distances s.left s out := by
  simp only [symbols_eq_repeated]
  exact local_repeated literals.local_read hliterals.read_lt
    (fun out symbol => local_meaning distances out symbol) out

/-! ### Codes that are sent along -/

/-- Reading numbers of three bits is local. -/
theorem local_threeBits (count : Nat) : Local (threeBits count) := by
  induction count with
  | zero => exact local_ok []
  | succ count ih => exact (Bits.local_number 3).bind fun _ _ => ih.bind fun _ _ => local_ok _

/-- Reading the lengths of words is local. -/
theorem local_wordLengths (code : Tree) (total fuel : Nat) (known : List Nat) :
    Local fun s => wordLengths code total fuel s known := by
  induction fuel generalizing known with
  | zero =>
    exact local_ite (fun _ => local_ok _) fun _ =>
      local_ite (fun _ => local_error _) fun _ => local_error _
  | succ fuel ih =>
    refine local_ite (fun _ => local_ok _) fun _ => local_ite (fun _ => local_error _) fun _ =>
      code.local_read.bind fun symbol _ => local_ite (fun _ => ih _) fun _ =>
        local_ite (fun _ => ?_) fun _ => local_ite (fun _ => ?_) fun _ => ?_
    · cases known with
      | nil => exact local_error .corrupt
      | cons last known => exact (Bits.local_number 2).bind fun _ _ => ih _
    · exact (Bits.local_number 3).bind fun _ _ => ih _
    · exact (Bits.local_number 7).bind fun _ _ => ih _

/-- Reading the codes of a block is local. -/
theorem local_sentCodes : Local sentCodes :=
  (Bits.local_number 5).bind fun _ _ => (Bits.local_number 5).bind fun _ _ =>
    (Bits.local_number 4).bind fun sent _ =>
      local_ite (fun _ => local_error _) fun _ =>
        (local_threeBits (sent + 4)).bind fun _ _ =>
          local_given fun code _ =>
            (local_wordLengths code _ _ []).bind fun _ _ =>
              local_given fun _ _ => local_given fun _ _ => local_ok _

/-- No code that is sent along has an empty word. -/
theorem isNode_of_sentCodes {s t : Bits} {literals distances : Tree}
    (h : sentCodes s = .ok ((literals, distances), t)) : literals.IsNode := by
  obtain ⟨⟨more, s₁⟩, -, h⟩ := bind_eq_ok.mp h
  obtain ⟨⟨far, s₂⟩, -, h⟩ := bind_eq_ok.mp h
  obtain ⟨⟨sent, s₃⟩, -, h⟩ := bind_eq_ok.mp h
  dsimp only at h
  split at h
  · cases h
  · obtain ⟨⟨sizes, s₄⟩, -, h⟩ := bind_eq_ok.mp h
    obtain ⟨code, -, h⟩ := bind_eq_ok.mp h
    obtain ⟨⟨all, s₅⟩, -, h⟩ := bind_eq_ok.mp h
    obtain ⟨distanceCode, -, h⟩ := bind_eq_ok.mp h
    obtain ⟨literalCode, hliterals, h⟩ := bind_eq_ok.mp h
    cases h
    exact Tree.isNode_of_ofLengths? hliterals

/-! ### Blocks -/

/-- Going on at the next byte boundary is local. -/
theorem local_rest {α : Type} (a : α) :
    Local fun s : Bits => (.ok (a, s.rest) : Except Fault (α × Bytes)) where
  advances h := by
    cases h
    exact List.suffix_rfl
  shrinks {s _ _} h := by
    cases h
    obtain ⟨bytes, used⟩ := s
    show 8 * (Bits.rest ⟨bytes, used⟩).length ≤ Bits.left ⟨bytes, used⟩
    simp only [Bits.rest, Bits.left]
    split
    · next hused => simp [hused]
    · rw [List.length_tail]
      omega
  stops s tail _ _ h _ := by
    cases h
    refine ⟨s.rest, s.rest_followedBy tail, fun other => ?_⟩
    show Except.ok (a, (s.followedBy other).rest) = .ok (a, s.rest ++ other)
    rw [Bits.rest_followedBy]

/-- Going on bit by bit is local. -/
theorem local_ofBytes {α : Type} (a : α) :
    Local fun bytes : Bytes => (.ok (a, Bits.ofBytes bytes) : Except Fault (α × Bits)) where
  advances h := by
    cases h
    exact List.suffix_rfl
  shrinks h := by
    cases h
    exact Nat.le_refl _
  stops bytes tail _ _ h _ := by
    cases h
    refine ⟨Bits.ofBytes bytes, (Bits.followedBy_ofBytes bytes tail).symm, fun other => ?_⟩
    show Except.ok (a, Bits.ofBytes (bytes ++ other)) =
      .ok (a, (Bits.ofBytes bytes).followedBy other)
    rw [Bits.followedBy_ofBytes]

/-- A stored block is two numbers of two bytes, and as many bytes as the first one says. -/
theorem stored_eq (bytes : Bytes) (out : Array UInt8) :
    stored bytes out = takeBytes 2 bytes >>= fun (length, bytes) =>
      takeBytes 2 bytes >>= fun (complement, bytes) =>
        if Bytes.toNatLE complement = 65535 - Bytes.toNatLE length then
          takeBytes (Bytes.toNatLE length) bytes >>= fun (data, bytes) =>
            .ok (out ++ data.toArray, Bits.ofBytes bytes)
        else .error .corrupt := by
  match bytes with
  | [] | [_] | [_, _] | [_, _, _] => rfl
  | l₀ :: l₁ :: n₀ :: n₁ :: rest =>
    have htwo (a b : UInt8) (bytes : Bytes) : takeBytes 2 (a :: b :: bytes) = .ok ([a, b], bytes) :=
      rfl
    simp only [stored, htwo, bind, Except.bind]
    simp only [takeBytes]
    split
    · split <;> rfl
    · rfl

/-- Reading a block of any kind is local. -/
theorem local_block (kind : Nat) (out : Array UInt8) : Local fun s => block kind s out := by
  match kind with
  | 0 =>
    have hstored : Local fun bytes => stored bytes out := by
      rw [funext fun bytes => stored_eq bytes out]
      exact (local_takeBytes 2).bind fun _ _ => (local_takeBytes 2).bind fun _ _ =>
        local_ite (fun _ => (local_takeBytes _).bind fun _ _ => local_ofBytes _)
          fun _ => local_error _
    show Local fun s : Bits => Except.ok ((), s.rest) >>= fun next => stored next.2 out
    exact (local_rest ()).bind fun _ _ => hstored
  | 1 => exact local_symbols (Tree.isNode_ofLengths _) fixedDistances out
  | 2 =>
    exact local_sentCodes.bind fun codes ⟨_, _, hcodes⟩ =>
      local_symbols (isNode_of_sentCodes hcodes) codes.2 out
  | _ + 3 => exact local_error .corrupt

/-- Reads the kind and the contents of a block, and says whether there are more. -/
def blockBody (out : Array UInt8) (last : Nat) (s : Bits) :
    Except Fault ((Bool × Array UInt8) × Bits) := do
  let (kind, s) ← s.number 2
  let (out, s) ← block kind s out
  .ok ((last != 1, out), s)

/-- Reads one block. -/
def blockStep (out : Array UInt8) (s : Bits) : Except Fault ((Bool × Array UInt8) × Bits) := do
  let (last, s) ← s.number 1
  blockBody out last s

/-- The blocks of a stream are read one after the other. -/
theorem blocks_eq_repeated (fuel : Nat) (s : Bits) (out : Array UInt8) :
    blocks fuel s out = repeated blockStep fuel out s := by
  induction fuel generalizing s out with
  | zero => rfl
  | succ fuel ih =>
    rw [blocks, repeated, blockStep, bind_assoc]
    congr 1
    funext next
    obtain ⟨last, s⟩ := next
    simp only [blockBody, bind_assoc, ih]
    congr 1
    funext next
    obtain ⟨kind, s⟩ := next
    congr 1
    funext next
    obtain ⟨out, s⟩ := next
    by_cases hlast : last = 1 <;> simp [hlast, bind, Except.bind]

/-- Reading the contents of a block is local. -/
theorem local_blockBody (out : Array UInt8) (last : Nat) : Local (blockBody out last) :=
  (Bits.local_number 2).bind fun kind _ => (local_block kind out).bind fun _ _ => local_ok _

/-- Reading the blocks of a stream is local. -/
theorem local_blocks (out : Array UInt8) : Local fun s : Bits => blocks s.left s out := by
  simp only [blocks_eq_repeated]
  refine local_repeated (Bits.local_number 1) (fun {s last t} h => ?_)
    (fun out last => local_blockBody out last) out
  have hbit : t.left + 1 = s.left := Bits.left_number h
  exact Nat.lt_of_succ_le (Nat.le_of_eq hbit)

/-- Expanding a stream takes exactly the stream, whatever follows it. -/
theorem local_inflate : Local inflate := by
  show Local fun bytes => Except.ok ((), Bits.ofBytes bytes) >>= fun next =>
    blocks next.2.left next.2 #[] >>= fun next => Except.ok (next.1.toList, next.2.rest)
  exact (local_ofBytes ()).bind fun _ _ => (local_blocks #[]).bind fun out _ =>
    local_rest out.toList

end TripArchive.Gzip
