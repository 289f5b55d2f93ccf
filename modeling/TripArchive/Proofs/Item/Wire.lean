import TripArchive.Item
import TripArchive.Proofs.Item.TagList

/-!
# Items on the wire

An item whose tag bytes spell its tags is read back from its bytes (`ofBytes_toBytes`), and every
item that was signed or read is such an item, whatever form its tag bytes have. `ofBytes_eq_ok_iff`
says which bytes are read as an item. A signed item is accepted under the scheme that signed it.
-/

namespace TripArchive

namespace SignatureScheme

open Classical in
/-- The scheme that accepts a signature exactly when a secret of the public key makes it. -/
noncomputable def exact (base : SignatureScheme) : SignatureScheme where
  publicKey := base.publicKey
  sign := base.sign
  verify publicKey message signature :=
    decide (∃ secret, base.publicKey secret = publicKey ∧ base.sign secret message = signature)

/-- The exact scheme accepts what it makes. -/
theorem exact_sound (base : SignatureScheme) : base.exact.Sound := by
  classical
  intro secret message
  exact decide_eq_true ⟨secret, rfl, rfl⟩

end SignatureScheme

namespace Item

/-- The tag bytes of an item spell its tags, and both numbers before them have eight bytes. -/
structure Spelled (item : Item) : Prop where
  read : TagList.read item.rawTags = .ok item.tags
  count : item.tags.length < Nat.pow 256 8
  length : item.rawTags.length < Nat.pow 256 8

variable {item : Item} {signer : Signer} {tags : List Tag} {data bytes rest : Bytes}

/-- A flag goes with an optional part: it is zero exactly when there is no part. -/
def Announces (flag : UInt8) (part : Option (Octets 32)) : Prop := flag = 0 ↔ part = none

/-- An optional part behind a flag. -/
def writeBehind (flag : UInt8) (part : Option (Octets 32)) : Bytes :=
  flag :: (part.map Subtype.val).getD []

/-- What comes before the flags: the type, the signature and the owner. -/
def opening (item : Item) : Bytes :=
  Bytes.ofNatLE 2 ed25519Type ++ item.signature.val ++ item.owner.val

/-- What comes behind the optional parts: the two numbers, the tag bytes and the data. -/
def body (item : Item) : Bytes :=
  Bytes.ofNatLE 8 item.tags.length ++ Bytes.ofNatLE 8 item.rawTags.length ++ item.rawTags ++
    item.data

/-- The bytes of an item behind flags of any values. -/
def bytesBehind (target anchor : UInt8) (item : Item) : Bytes :=
  item.opening ++ (writeBehind target item.target ++ (writeBehind anchor item.anchor ++ item.body))

/-- The flag that is written before an optional part. -/
def flagOf (part : Option (Octets 32)) : UInt8 := if part.isSome then 1 else 0

/-- The written flag goes with its part. -/
theorem announces_flagOf (part : Option (Octets 32)) : Announces (flagOf part) part := by
  cases part with
  | none => exact ⟨fun _ => rfl, fun _ => rfl⟩
  | some part =>
    have hset : flagOf (some part) = 1 := rfl
    constructor
    · intro hzero
      rw [hset] at hzero
      exact absurd hzero (by decide)
    · intro hnone
      cases hnone

/-- An optional part is written behind its flag. -/
theorem writeOptional_eq (part : Option (Octets 32)) :
    writeOptional part = writeBehind (flagOf part) part := by
  cases part <;> rfl

/-- An item is written behind the flags of its optional parts. -/
theorem toBytes_eq (item : Item) :
    item.toBytes = item.bytesBehind (flagOf item.target) (flagOf item.anchor) := by
  unfold toBytes bytesBehind opening body
  simp only [writeOptional_eq, List.append_assoc]

/-- A part of a fixed size is read back, whatever follows it. -/
theorem readOctets_append {n : Nat} (field : Field) (part : Octets n) (tail : Bytes) :
    readOctets field n (part.val ++ tail) = .ok (part, tail) := by
  obtain ⟨part, rfl⟩ := part
  have hroom : part.length ≤ (part ++ tail).length := by simp
  unfold readOctets
  rw [dif_pos hroom]
  simp only [List.take_left, List.drop_left]

/-- A part of a fixed size is read from its own bytes only. -/
theorem readOctets_eq_ok {n : Nat} {field : Field} {part : Octets n} :
    readOctets field n bytes = .ok (part, rest) ↔ bytes = part.val ++ rest := by
  constructor
  · intro h
    unfold readOctets at h
    split at h
    · cases h
      exact (List.take_append_drop n bytes).symm
    · cases h
  · rintro rfl
    exact readOctets_append field part rest

/-- A number of eight bytes is read back, whatever follows it. -/
theorem readOctets_ofNatLE {width n : Nat} (field : Field) (tail : Bytes) :
    readOctets field width (Bytes.ofNatLE width n ++ tail) =
      .ok (⟨Bytes.ofNatLE width n, Bytes.length_ofNatLE width n⟩, tail) :=
  readOctets_append field ⟨Bytes.ofNatLE width n, Bytes.length_ofNatLE width n⟩ tail

/-- An optional part is read back behind a flag that goes with it, whatever follows it. -/
theorem readOptional_writeBehind {flag : UInt8} {part : Option (Octets 32)} (field : Field)
    (h : Announces flag part) (tail : Bytes) :
    readOptional field (writeBehind flag part ++ tail) = .ok (part, tail) := by
  cases part with
  | none =>
    cases h.mpr rfl
    rfl
  | some part =>
    have hset : ¬ flag = 0 := fun hzero => Option.some_ne_none part (h.mp hzero)
    show readOptional field (flag :: (part.val ++ tail)) = _
    simp only [readOptional, if_neg hset, readOctets_append, bind, Except.bind]

/-- An optional part is read from its own bytes behind a flag that goes with it only. -/
theorem readOptional_eq_ok {field : Field} {part : Option (Octets 32)} :
    readOptional field bytes = .ok (part, rest) ↔
      ∃ flag, Announces flag part ∧ bytes = writeBehind flag part ++ rest := by
  constructor
  · intro h
    unfold readOptional at h
    split at h
    · cases h
    · next flag bytes =>
      split at h
      · next hzero =>
        cases h
        exact ⟨flag, ⟨fun _ => rfl, fun _ => hzero⟩, rfl⟩
      · next hset =>
        obtain ⟨⟨found, after⟩, hread, h⟩ := bind_eq_ok.mp h
        cases h
        refine ⟨flag, ⟨fun hzero => absurd hzero hset, fun hnone => by cases hnone⟩, ?_⟩
        exact congrArg (flag :: ·) (readOctets_eq_ok.mp hread)
  · rintro ⟨flag, h, rfl⟩
    exact readOptional_writeBehind field h rest

/-- An item is read back from its bytes behind any flags that go with its optional parts. -/
theorem ofBytes_bytesBehind {target anchor : UInt8} (h : item.Spelled)
    (htarget : Announces target item.target) (hanchor : Announces anchor item.anchor) :
    ofBytes (item.bytesBehind target anchor) = .ok item := by
  have htype : Bytes.toNatLE (Bytes.ofNatLE 2 ed25519Type) = ed25519Type :=
    Bytes.toNatLE_ofNatLE_of_lt (by decide)
  have hlength : item.rawTags.length = Bytes.toNatLE (Bytes.ofNatLE 8 item.rawTags.length) :=
    (Bytes.toNatLE_ofNatLE_of_lt h.length).symm
  have htags := readOctets_append .tags ⟨item.rawTags, hlength⟩ item.data
  unfold ofBytes bytesBehind opening body
  simp only [List.append_assoc, bind, Except.bind, Failure.lift_ok, readOctets_ofNatLE,
    readOctets_append, readOptional_writeBehind _ htarget, readOptional_writeBehind _ hanchor,
    htype, ne_eq, not_true_eq_false, if_false, htags, h.read, mapError_ok,
    Bytes.toNatLE_ofNatLE_of_lt h.count, if_true]

/-- An item is read back from its bytes. -/
theorem ofBytes_toBytes (h : item.Spelled) : ofBytes item.toBytes = .ok item := by
  rw [toBytes_eq]
  exact ofBytes_bytesBehind h (announces_flagOf _) (announces_flagOf _)

/-- What signing makes, if the tags keep the limits. -/
theorem sign_eq_ok (h : sign signer tags data = .ok item) :
    Tag.WithinLimits tags ∧ item =
      ⟨signer.sign (signatureMessage signer.publicKey none none (TagList.write tags) data),
        signer.publicKey, none, none, tags, TagList.write tags, data⟩ := by
  unfold sign at h
  split at h
  · cases h
  · next hexcess =>
    cases h
    exact ⟨(Tag.excess_eq_none_iff tags).mp hexcess, rfl⟩

/-- A signed item spells its tags. -/
theorem spelled_of_sign (h : sign signer tags data = .ok item) : item.Spelled := by
  obtain ⟨hlimits, rfl⟩ := sign_eq_ok h
  have hcount := hlimits.1
  unfold Tag.maxCount at hcount
  have hlength := TagList.length_write_le hlimits
  refine ⟨TagList.read_write hlimits, ?_, ?_⟩
  · exact Nat.lt_of_le_of_lt hcount (by decide)
  · exact Nat.lt_of_le_of_lt hlength (by decide)

/-- A signed item is accepted under a scheme that accepts its own signatures. -/
theorem verify_of_sign (hsound : signer.scheme.Sound) (h : sign signer tags data = .ok item) :
    item.verify signer.scheme = .ok () := by
  obtain ⟨_, rfl⟩ := sign_eq_ok h
  exact if_pos (hsound signer.seed _)

/-- Signing succeeds exactly when the tags keep the limits. -/
theorem exists_sign_iff : (∃ item, sign signer tags data = .ok item) ↔ Tag.WithinLimits tags := by
  constructor
  · rintro ⟨item, h⟩
    exact (sign_eq_ok h).1
  · intro h
    have hexcess := (Tag.excess_eq_none_iff tags).mpr h
    unfold sign
    rw [hexcess]
    exact ⟨_, rfl⟩

/-- The bytes that are read as an item are those of its parts in turn: two flags that go with the
optional parts, and numbers that say the type and count the tags and their bytes. -/
theorem parts_of_ofBytes (h : ofBytes bytes = .ok item) :
    ∃ (type : Octets 2) (target anchor : UInt8) (count length : Octets 8),
      Bytes.toNatLE type.val = ed25519Type ∧ Announces target item.target ∧
      Announces anchor item.anchor ∧ Bytes.toNatLE count.val = item.tags.length ∧
      Bytes.toNatLE length.val = item.rawTags.length ∧
      TagList.read item.rawTags = .ok item.tags ∧
      bytes = type.val ++ (item.signature.val ++ (item.owner.val ++
        (writeBehind target item.target ++ (writeBehind anchor item.anchor ++
          (count.val ++ (length.val ++ (item.rawTags ++ item.data))))))) := by
  unfold ofBytes at h
  obtain ⟨⟨type, afterType⟩, htype, h⟩ := bind_eq_ok.mp h
  dsimp only at h
  split at h
  · cases h
  next hknown =>
  obtain ⟨⟨signature, afterSignature⟩, hsignature, h⟩ := bind_eq_ok.mp h
  obtain ⟨⟨owner, afterOwner⟩, howner, h⟩ := bind_eq_ok.mp h
  obtain ⟨⟨target, afterTarget⟩, htarget, h⟩ := bind_eq_ok.mp h
  obtain ⟨⟨anchor, afterAnchor⟩, hanchor, h⟩ := bind_eq_ok.mp h
  obtain ⟨⟨count, afterCount⟩, hcount, h⟩ := bind_eq_ok.mp h
  obtain ⟨⟨length, afterLength⟩, hlength, h⟩ := bind_eq_ok.mp h
  obtain ⟨⟨rawTags, data⟩, htags, h⟩ := bind_eq_ok.mp h
  obtain ⟨tags, hread, h⟩ := bind_eq_ok.mp h
  rw [Failure.lift_eq_ok] at htype hsignature howner htarget hanchor hcount hlength htags
  dsimp only at *
  split at h
  · next hdeclared =>
    cases h
    obtain ⟨targetFlag, htargetFlag, rfl⟩ := readOptional_eq_ok.mp htarget
    obtain ⟨anchorFlag, hanchorFlag, rfl⟩ := readOptional_eq_ok.mp hanchor
    rw [readOctets_eq_ok] at htype hsignature howner hcount hlength htags
    refine ⟨type, targetFlag, anchorFlag, count, length, Decidable.not_not.mp hknown, htargetFlag,
      hanchorFlag, hdeclared.symm, rawTags.property.symm, mapError_eq_ok.mp hread, ?_⟩
    rw [htype, hsignature, howner, hcount, hlength, htags]
  · cases h

/-- An item that was read spells its tags: the reader took the tag bytes as they came, and checked
the number of tags against what they spell. -/
theorem spelled_of_ofBytes (h : ofBytes bytes = .ok item) : item.Spelled := by
  obtain ⟨_, _, _, count, length, _, _, _, hcount, hlength, hread, _⟩ := parts_of_ofBytes h
  have hcountLt := Bytes.toNatLE_lt count.val
  rw [count.property, hcount] at hcountLt
  have hlengthLt := Bytes.toNatLE_lt length.val
  rw [length.property, hlength] at hlengthLt
  exact ⟨hread, hcountLt, hlengthLt⟩

/-- Bytes are read as an item exactly when they are those of the item behind flags that go with its
optional parts, and the tag bytes spell the tags. -/
theorem ofBytes_eq_ok_iff :
    ofBytes bytes = .ok item ↔ item.Spelled ∧ ∃ target anchor, Announces target item.target ∧
      Announces anchor item.anchor ∧ bytes = item.bytesBehind target anchor := by
  constructor
  · intro h
    obtain ⟨type, target, anchor, count, length, htype, htarget, hanchor, hcount, hlength, _,
      hbytes⟩ := parts_of_ofBytes h
    refine ⟨spelled_of_ofBytes h, target, anchor, htarget, hanchor, ?_⟩
    -- A number of a fixed size has one spelling.
    have htypeBytes := Bytes.ofNatLE_toNatLE type.val
    have hcountBytes := Bytes.ofNatLE_toNatLE count.val
    have hlengthBytes := Bytes.ofNatLE_toNatLE length.val
    rw [type.property, htype] at htypeBytes
    rw [count.property, hcount] at hcountBytes
    rw [length.property, hlength] at hlengthBytes
    unfold bytesBehind opening body
    simp only [hbytes, htypeBytes, hcountBytes, hlengthBytes, List.append_assoc]
  · rintro ⟨hspelled, target, anchor, htarget, hanchor, rfl⟩
    exact ofBytes_bytesBehind hspelled htarget hanchor

/-- Where an item comes from: it was signed, or it was read. -/
inductive Made (item : Item) : Prop
  | signed {signer : Signer} {tags : List Tag} {data : Bytes}
      (h : sign signer tags data = .ok item)
  | read {bytes : Bytes} (h : ofBytes bytes = .ok item)

/-- An item spells its tags, wherever it comes from. -/
theorem Made.spelled (h : item.Made) : item.Spelled := by
  cases h with
  | signed h => exact spelled_of_sign h
  | read h => exact spelled_of_ofBytes h

/-- Items travel unharmed. The tag bytes of every item that was signed or read spell its tags, and
the item is read back from its bytes with every field as it was, so that its identifier and the
verdict on its signature stay the same too. Any tags within the limits and any data can be signed,
and the item holds them and is accepted. -/
theorem made_items_round_trip :
    (∀ item : Item, item.Made →
      TagList.read item.rawTags = .ok item.tags ∧ ofBytes item.toBytes = .ok item) ∧
    (∀ (signer : Signer) (tags : List Tag) (data : Bytes),
      (∃ item, sign signer tags data = .ok item) ↔ Tag.WithinLimits tags) ∧
    ∀ (signer : Signer) (tags : List Tag) (data : Bytes) (item : Item), signer.scheme.Sound →
      sign signer tags data = .ok item →
      item.tags = tags ∧ item.data = data ∧ item.verify signer.scheme = .ok () := by
  refine ⟨?_, ?_, ?_⟩
  · intro item hmade
    exact ⟨hmade.spelled.read, ofBytes_toBytes hmade.spelled⟩
  · intro signer tags data
    exact exists_sign_iff
  · intro signer tags data item hsound h
    have hverify := verify_of_sign hsound h
    obtain ⟨_, rfl⟩ := sign_eq_ok h
    exact ⟨rfl, rfl, hverify⟩

/-- Two tags and three bytes are signed, accepted and read back, and what was read travels on. -/
theorem tagged_item_round_trips :
    ∃ item, sign ⟨Ed25519.scheme.exact, ⟨List.replicate 32 3, rfl⟩⟩
        [⟨"Trip-Type", "segment"⟩, ⟨"Place", "Zürich"⟩] [1, 2, 3] = .ok item ∧
      TagList.read item.rawTags = .ok [⟨"Trip-Type", "segment"⟩, ⟨"Place", "Zürich"⟩] ∧
      item.verify Ed25519.scheme.exact = .ok () ∧
      ∃ arrived, ofBytes item.toBytes = .ok arrived ∧ ofBytes arrived.toBytes = .ok arrived := by
  have hround := made_items_round_trip
  obtain ⟨item, hsign⟩ := (hround.2.1 ⟨Ed25519.scheme.exact, ⟨List.replicate 32 3, rfl⟩⟩
    [⟨"Trip-Type", "segment"⟩, ⟨"Place", "Zürich"⟩] [1, 2, 3]).mpr (by decide)
  obtain ⟨htags, hbytes⟩ := hround.1 item (.signed hsign)
  obtain ⟨hsame, _, hverify⟩ :=
    hround.2.2 _ _ _ item (SignatureScheme.exact_sound Ed25519.scheme) hsign
  exact ⟨item, hsign, hsame ▸ htags, hverify, item, hbytes, (hround.1 item (.read hbytes)).2⟩

end Item

end TripArchive
