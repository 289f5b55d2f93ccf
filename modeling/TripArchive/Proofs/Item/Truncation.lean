import TripArchive.Proofs.Item.Wire

/-!
# Items cut short

The bytes of an item are its fields in turn with the data behind them. An item that is cut off
inside its fields is refused with the name of the field in which the cut falls, and one that is cut
off behind them is read with the data that are left (`ofBytes_take_toBytes`).
-/

namespace TripArchive.Item

variable {item : Item}

namespace Field

/-- The bytes of a field; a flag belongs to the part that it announces. -/
def bytes (item : Item) : Field → Bytes
  | signatureType => Bytes.ofNatLE 2 ed25519Type
  | signature => item.signature.val
  | owner => item.owner.val
  | target => writeOptional item.target
  | anchor => writeOptional item.anchor
  | tagCount => Bytes.ofNatLE 8 item.tags.length
  | tagLength => Bytes.ofNatLE 8 item.rawTags.length
  | tags => item.rawTags

/-- The fields in the order in which they are written. -/
def inOrder : List Field :=
  [signatureType, signature, owner, target, anchor, tagCount, tagLength, tags]

/-- The fields that are written before a field. -/
def before (field : Field) : List Field := inOrder.takeWhile fun other => other ≠ field

/-- How many bytes some fields have together. -/
def total (item : Item) (fields : List Field) : Nat :=
  (fields.flatMap (bytes item)).length

/-- Whether an offset falls in a field: it is neither before its first byte nor behind its last. -/
def Holds (item : Item) (k : Nat) (field : Field) : Prop :=
  total item field.before ≤ k ∧ k < total item field.before + (field.bytes item).length

instance (k : Nat) (field : Field) : Decidable (Holds item k field) :=
  inferInstanceAs (Decidable (_ ∧ _))

/-- The field among some in which an offset falls, counted from the first of them. -/
def locate (item : Item) : List Field → Nat → Option Field
  | [], _ => none
  | field :: fields, k =>
    if k < (field.bytes item).length then some field
    else locate item fields (k - (field.bytes item).length)

end Field

/-- How many bytes come before the data of an item. -/
def headerLength (item : Item) : Nat := Field.total item Field.inOrder

/-- An item is written as its fields in turn, and its data. -/
theorem toBytes_eq_fields (item : Item) :
    item.toBytes = Field.inOrder.flatMap (Field.bytes item) ++ item.data := by
  simp only [toBytes, Field.inOrder, List.flatMap_cons, List.flatMap_nil, Field.bytes,
    List.append_assoc, List.append_nil]

/-- What comes before the data and the data make up the bytes of an item. -/
theorem length_toBytes (item : Item) :
    item.toBytes.length = item.headerLength + item.data.length := by
  rw [toBytes_eq_fields, List.length_append]
  rfl

namespace Field

variable {k : Nat}

/-- An offset that no field holds is behind all of them. -/
theorem locate_eq_none_iff {fields : List Field} :
    locate item fields k = none ↔ total item fields ≤ k := by
  induction fields generalizing k with
  | nil => simp [locate, total]
  | cons field fields ih =>
    have htotal : total item (field :: fields) =
        (field.bytes item).length + total item fields := by simp [total]
    rw [locate, htotal]
    split
    · next hinside =>
      simp only [reduceCtorEq, false_iff]
      omega
    · next hbehind =>
      rw [ih]
      omega

/-- Of some different fields that one is located in which the offset falls. -/
theorem locate_eq_some_iff {fields : List Field} {field : Field} (hnodup : fields.Nodup) :
    locate item fields k = some field ↔ field ∈ fields ∧
      total item (fields.takeWhile fun other => other ≠ field) ≤ k ∧
      k < total item (fields.takeWhile fun other => other ≠ field) +
        (field.bytes item).length := by
  induction fields generalizing k with
  | nil => simp [locate]
  | cons first fields ih =>
    obtain ⟨hfresh, hrest⟩ := List.nodup_cons.mp hnodup
    rw [locate]
    by_cases hfirst : first = field
    · subst hfirst
      have hstart : total item ((first :: fields).takeWhile fun other => other ≠ first) = 0 := by
        simp [total]
      rw [hstart, Nat.zero_add]
      split
      · next hinside => simp [hinside]
      · next hbehind =>
        -- No other field of this name comes later.
        rw [ih hrest]
        simp [hfresh, hbehind]
    · have hstart : total item ((first :: fields).takeWhile fun other => other ≠ field) =
          (first.bytes item).length +
            total item (fields.takeWhile fun other => other ≠ field) := by
        simp [total, hfirst]
      have hmem : field ∈ first :: fields ↔ field ∈ fields := by
        simp [Ne.symm hfirst]
      rw [hstart, hmem]
      split
      · next hinside =>
        simp only [Option.some.injEq, hfirst, false_iff]
        omega
      · next hbehind =>
        rw [ih hrest]
        refine and_congr_right fun _ => ?_
        omega

/-- The field that is located holds the offset, and no other does. -/
theorem locate_inOrder_iff {field : Field} :
    locate item inOrder k = some field ↔ Holds item k field := by
  have hmem : field ∈ inOrder := by cases field <;> decide
  rw [locate_eq_some_iff (by decide)]
  exact ⟨And.right, fun h => ⟨hmem, h⟩⟩

end Field

/-- A part of a fixed size that is cut off is refused, and one behind which is cut is read. -/
theorem readOctets_take {n : Nat} (field : Field) (part : Octets n) (tail : Bytes) (k : Nat) :
    readOctets field n ((part.val ++ tail).take k) =
      if k < n then .error (.truncated field) else .ok (part, tail.take (k - n)) := by
  have hlength : part.val.length = n := part.property
  rw [List.take_append, hlength]
  split
  · next hinside =>
    unfold readOctets
    rw [dif_neg]
    simp only [List.length_append, List.length_take]
    omega
  · next hbehind =>
    rw [List.take_of_length_le (by omega)]
    exact readOctets_append field part _

/-- An optional part is cut off at its flag or behind it. -/
theorem readOptional_take (field : Field) (part : Option (Octets 32)) (tail : Bytes) (k : Nat) :
    readOptional field ((writeOptional part ++ tail).take k) =
      if k < (writeOptional part).length then .error (.truncated field)
      else .ok (part, tail.take (k - (writeOptional part).length)) := by
  cases k with
  | zero =>
    have hflag : 0 < (writeOptional part).length := by cases part <;> simp [writeOptional]
    rw [if_pos hflag]
    rfl
  | succ k =>
    cases part with
    | none => simp [writeOptional, readOptional]
    | some part =>
      have hset : ¬ (1 : UInt8) = 0 := by decide
      have hlength : (writeOptional (some part)).length = 33 := by
        simp [writeOptional, part.property]
      show readOptional field (1 :: (part.val ++ tail).take k) = _
      rw [hlength, readOptional, if_neg hset, readOctets_take]
      by_cases hinside : k < 32
      · rw [if_pos hinside, if_pos (by omega)]
        rfl
      · rw [if_neg hinside, if_neg (by omega), Nat.add_sub_add_right]
        rfl

/-- What was refused stays refused, and what was read is read on. -/
theorem bind_cut {α β : Type} {p : Prop} [Decidable p] (e : Error) (a : α)
    (next : α → Except (Failure Error) β) :
    ((liftM (if p then .error e else .ok a : Except Error α) : Except (Failure Error) α) >>= next) =
      if p then .error (.refused e) else next a := by
  split <;> rfl

/-- The item with its data cut to their first `k` bytes. -/
def withData (item : Item) (k : Nat) : Item := { item with data := item.data.take k }

/-- A number of a fixed size is cut off inside or behind it. -/
theorem readOctets_take_ofNatLE {width n : Nat} (field : Field) (tail : Bytes) (k : Nat) :
    readOctets field width ((Bytes.ofNatLE width n ++ tail).take k) =
      if k < width then .error (.truncated field)
      else .ok (⟨Bytes.ofNatLE width n, Bytes.length_ofNatLE width n⟩, tail.take (k - width)) :=
  readOctets_take field ⟨Bytes.ofNatLE width n, Bytes.length_ofNatLE width n⟩ tail k

/-- A field is located among the first and the later ones. -/
theorem Field.elim_locate {α : Type} (field : Field) (fields : List Field) (k : Nat) (a : α)
    (f : Field → α) :
    (locate item (field :: fields) k).elim a f =
      if k < (field.bytes item).length then f field
      else (locate item fields (k - (field.bytes item).length)).elim a f := by
  rw [locate]
  split <;> rfl

/-- Reading the first bytes of an item ends in the field where the cut falls, or behind all. -/
theorem ofBytes_take_toBytes (h : item.Spelled) (k : Nat) :
    ofBytes (item.toBytes.take k) =
      (Field.locate item Field.inOrder k).elim (.ok (item.withData (k - item.headerLength)))
        fun field => .error (.refused (.truncated field)) := by
  have htype : Bytes.toNatLE (Bytes.ofNatLE 2 ed25519Type) = ed25519Type :=
    Bytes.toNatLE_ofNatLE_of_lt (by decide)
  have hcount := Bytes.toNatLE_ofNatLE_of_lt h.count
  have hlength := Bytes.toNatLE_ofNatLE_of_lt h.length
  have htags (k : Nat) := readOctets_take .tags ⟨item.rawTags, hlength.symm⟩ item.data k
  have hheader : item.headerLength = 2 + 64 + 32 + (writeOptional item.target).length +
      (writeOptional item.anchor).length + 8 + 8 + item.rawTags.length := by
    simp only [headerLength, Field.total, Field.inOrder, List.flatMap_cons, List.flatMap_nil,
      List.length_append, List.length_nil, Field.bytes, Bytes.length_ofNatLE,
      item.signature.property, item.owner.property]
    omega
  -- Every field is cut off or read on both sides; what is left is the item behind all of them.
  unfold ofBytes toBytes
  simp only [List.append_assoc, readOctets_take_ofNatLE, readOctets_take, readOptional_take,
    bind_cut, htype, htags, h.read, hcount, ne_eq, not_true_eq_false, if_false,
    Field.inOrder, Field.elim_locate, Field.bytes, Bytes.length_ofNatLE, item.signature.property,
    item.owner.property]
  simp only [hlength, mapError_ok, hheader, withData, ← Nat.sub_sub, bind, Except.bind, if_true,
    Field.locate, Option.elim_none]

/-- Cut offs are located. Before the data of an item that was signed or read, every offset falls in
exactly one field, and the item cut off there is refused with the name of that field. Cut off at any
later offset, the item is read with as many bytes of its data as are left. -/
theorem cut_located {item : Item} (h : item.Made) (k : Nat) :
    item.toBytes.length = item.headerLength + item.data.length ∧
    item.toBytes = Field.inOrder.flatMap (Field.bytes item) ++ item.data ∧
    (k < item.headerLength → ∃ field, Field.Holds item k field ∧
      (∀ other, Field.Holds item k other → other = field) ∧
      ofBytes (item.toBytes.take k) = .error (.refused (.truncated field))) ∧
    (item.headerLength ≤ k → ofBytes (item.toBytes.take k) =
      .ok { item with data := item.data.take (k - item.headerLength) }) := by
  have hread := ofBytes_take_toBytes h.spelled k
  refine ⟨length_toBytes item, toBytes_eq_fields item, ?_, ?_⟩
  · intro hinside
    cases hlocate : Field.locate item Field.inOrder k with
    | none =>
      have hbehind : item.headerLength ≤ k := Field.locate_eq_none_iff.mp hlocate
      omega
    | some field =>
      rw [hlocate] at hread
      refine ⟨field, Field.locate_inOrder_iff.mp hlocate, ?_, hread⟩
      intro other hother
      rw [Field.locate_inOrder_iff.mpr hother] at hlocate
      exact Option.some.inj hlocate
  · intro hbehind
    have hlocate : Field.locate item Field.inOrder k = none := Field.locate_eq_none_iff.mpr hbehind
    rw [hlocate] at hread
    exact hread

/-- An item with a target, one tag and three bytes of data. -/
def addressed : Item where
  signature := ⟨List.replicate 64 1, rfl⟩
  owner := ⟨List.replicate 32 2, rfl⟩
  target := some ⟨List.replicate 32 3, rfl⟩
  anchor := none
  tags := [⟨"a", "b"⟩]
  rawTags := [2, 2, 97, 2, 98, 0]
  data := [7, 8, 9]

/-- The item with a target is cut off in its target, at the flag behind it, and in its data. -/
theorem addressed_cut :
    addressed.Made ∧
    ofBytes (addressed.toBytes.take 130) = .error (.refused (.truncated .target)) ∧
    ofBytes (addressed.toBytes.take 131) = .error (.refused (.truncated .anchor)) ∧
    ofBytes (addressed.toBytes.take 155) = .ok { addressed with data := [7] } := by
  have hwritten : addressed.rawTags = TagList.write addressed.tags := by decide +kernel
  have hspelled : addressed.Spelled :=
    ⟨hwritten ▸ TagList.read_write (by decide), by decide, by decide⟩
  have hmade : addressed.Made := .read (ofBytes_toBytes hspelled)
  have hheader : addressed.headerLength = 154 := by decide +kernel
  obtain ⟨inTarget, _, htarget, hcutTarget⟩ := (cut_located hmade 130).2.2.1 (by omega)
  obtain ⟨inAnchor, _, hanchor, hcutAnchor⟩ := (cut_located hmade 131).2.2.1 (by omega)
  have hcutData := (cut_located hmade 155).2.2.2 (by omega)
  rw [← htarget .target (by decide +kernel)] at hcutTarget
  rw [← hanchor .anchor (by decide +kernel)] at hcutAnchor
  rw [hheader] at hcutData
  exact ⟨hmade, hcutTarget, hcutAnchor, hcutData⟩

end TripArchive.Item
