import TripArchive.Package
import TripArchive.Proofs.Gzip.Member
import TripArchive.Proofs.Item.Wire
import TripArchive.Proofs.Time.Rfc3339

/-!
# Packages unpacked

A package is packed exactly when its tags keep the limits, and these also bound the name of its
entry. So whatever was packed unpacks under its key to the one entry that was put in, before and
after it travels as bytes.
-/

namespace TripArchive.Package

variable {compressor : Gzip.Compressor} {signer : Signer} {raw : Bytes} {key : SegmentKey}
  {nonce : Nonce} {label : Label} {item : Item}

/-- What packing makes, if the tags keep the limits. -/
theorem pack_eq_ok (h : pack compressor signer raw key nonce label = .ok item) :
    Item.sign signer (label.tags nonce)
      (encrypt (Gzip.compress compressor raw label.entryName) key nonce) = .ok item := by
  unfold pack at h
  exact mapError_eq_ok.mp h

/-- A package carries its tags, which keep the limits. -/
theorem tags_of_pack (h : pack compressor signer raw key nonce label = .ok item) :
    item.tags = label.tags nonce ∧ Tag.WithinLimits (label.tags nonce) := by
  obtain ⟨hlimits, rfl⟩ := Item.sign_eq_ok (pack_eq_ok h)
  exact ⟨rfl, hlimits⟩

/-- The values under which a package is found. -/
theorem tag?_of_pack (h : pack compressor signer raw key nonce label = .ok item) :
    item.tag? "Vehicle-Token-ID" = some (toString label.vehicleToken) ∧
      item.tag? "Segment-ID" = some label.segmentId ∧
      item.tag? "Start-Time" = some (Rfc3339.write .millis label.start) ∧
      item.tag? "End-Time" = some (Rfc3339.write .millis label.finish) ∧
      item.tag? nonceTag = some (Base64.encode nonce.val) := by
  unfold Item.tag?
  rw [(tags_of_pack h).1]
  exact ⟨rfl, rfl, rfl, rfl, rfl⟩

/-- The characters of an entry name are ASCII. -/
theorem nameChar_lt (c : Char) : (nameChar c).toNat < 128 := by
  unfold nameChar
  split
  · next h =>
    have hle {a b : Char} (hab : a ≤ b) : a.toNat ≤ b.toNat := UInt32.le_iff_toNat_le.mp hab
    simp only [isNameChar, Bool.or_eq_true, Bool.and_eq_true, decide_eq_true_eq, beq_iff_eq] at h
    rcases h with (((⟨_, hc⟩ | ⟨_, hc⟩) | ⟨_, hc⟩) | rfl) | rfl
    · exact Nat.lt_of_le_of_lt (hle hc) (by decide)
    · exact Nat.lt_of_le_of_lt (hle hc) (by decide)
    · exact Nat.lt_of_le_of_lt (hle hc) (by decide)
    · decide
    · decide
  · decide

/-- A number of at most `count` digits has at most one character more. -/
theorem length_toString_le {n : Int} {count : Nat} (hcount : 0 < count)
    (h : n.natAbs < 10 ^ count) : (toString n).toList.length ≤ count + 1 := by
  have hdigits := (Nat.length_toDigits_le_iff (by decide) hcount).mpr h
  cases n with
  | ofNat m =>
    show (Nat.repr m).toList.length ≤ count + 1
    rw [Nat.toList_repr]
    exact Nat.le_succ_of_le hdigits
  | negSucc m =>
    show ("-" ++ Nat.repr (m + 1)).toList.length ≤ count + 1
    rw [String.toList_append, Nat.toList_repr, List.length_append]
    have hsign : "-".toList.length = 1 := rfl
    have hmagnitude : (Int.negSucc m).natAbs = m + 1 := rfl
    rw [hmagnitude] at hdigits
    omega

/-- The limits of its tags bound the entry name of a package. -/
theorem short_entryName (h : Tag.WithinLimits (label.tags nonce)) : label.entryName.Short := by
  have hvalue (tag : Tag) (hmem : tag ∈ label.tags nonce) : tag.value.utf8ByteSize ≤ 3072 :=
    (h.2 tag hmem).2.2
  have htoken := Utf8.length_toList_le (toString label.vehicleToken)
  have hid := Utf8.length_toList_le label.segmentId
  rw [Utf8.length_encode] at htoken hid
  have htokenSize : (toString label.vehicleToken).utf8ByteSize ≤ 3072 :=
    hvalue ⟨"Vehicle-Token-ID", toString label.vehicleToken⟩ (by simp [Label.tags])
  have hidSize : label.segmentId.utf8ByteSize ≤ 3072 :=
    hvalue ⟨"Segment-ID", label.segmentId⟩ (by simp [Label.tags])
  have hstart := length_toString_le (by decide) (Rfc3339.natAbs_seconds_lt (by decide)
    (hvalue ⟨"Start-Time", Rfc3339.write .millis label.start⟩ (by simp [Label.tags])))
  have hfinish := length_toString_le (by decide) (Rfc3339.natAbs_seconds_lt (by decide)
    (hvalue ⟨"End-Time", Rfc3339.write .millis label.finish⟩ (by simp [Label.tags])))
  have hsuffix : ".json".toList.all (fun c => decide (c.toNat < 128)) = true := rfl
  have hascii : ∀ c ∈ label.entryName.text.toList, c.toNat < 128 := by
    intro c hc
    simp only [Label.entryName, String.toList_ofList, Label.nameChars, List.mem_append,
      List.mem_map] at hc
    rcases hc with ⟨d, _, rfl⟩ | hend
    · exact nameChar_lt d
    · exact of_decide_eq_true (List.all_eq_true.mp hsuffix c hend)
  have hchars : label.entryName.text.toList.length =
      (toString label.vehicleToken).toList.length + 1 + label.segmentId.toList.length + 1 +
        (toString label.start.seconds).toList.length + 1 +
        (toString label.finish.seconds).toList.length + 5 := by
    have hbar : "_".toList.length = 1 := rfl
    simp only [Label.entryName, String.toList_ofList, Label.nameChars, String.toList_append,
      List.length_append, List.length_map, hbar]
    rfl
  unfold Gzip.Name.Short Gzip.maxFieldBytes
  rw [Utf8.length_encode_of_ascii hascii, hchars]
  omega

/-- A package names the nonce under which it was encrypted. -/
theorem nonceOf_of_pack (h : pack compressor signer raw key nonce label = .ok item) :
    nonceOf item = .ok nonce := by
  have hoctets : Octets.ofBytes? 12 nonce.val = some nonce := dif_pos nonce.property
  unfold nonceOf
  rw [(tag?_of_pack h).2.2.2.2, Option.bind_some, Base64.decode_encode]
  simp only [hoctets]

/-- A package unpacks under its key to its one entry. -/
theorem unpack_of_pack (hsound : signer.scheme.Sound)
    (h : pack compressor signer raw key nonce label = .ok item) :
    unpack signer.scheme item key = .ok [⟨some label.entryName.text, raw⟩] := by
  have hsign := pack_eq_ok h
  have hverify := Item.verify_of_sign hsound hsign
  have hdata : item.data = encrypt (Gzip.compress compressor raw label.entryName) key nonce := by
    rw [(Item.sign_eq_ok hsign).2]
  have hdecrypt : decrypt item.data key nonce =
      .ok (Gzip.compress compressor raw label.entryName) := by
    unfold decrypt
    rw [hdata, encrypt, Gcm.decrypt?_encrypt]
  have hdecompress : decompress (Gzip.compress compressor raw label.entryName) =
      .ok [⟨some label.entryName.text, raw⟩] := by
    unfold decompress
    rw [Gzip.decompress_compress (short_entryName (tags_of_pack h).2)]
    rfl
  unfold unpack
  simp only [hverify, nonceOf_of_pack h, hdecrypt, hdecompress, bind, Except.bind, mapError_ok]

/-- A package is read back from its bytes. -/
theorem ofBytes_of_pack (h : pack compressor signer raw key nonce label = .ok item) :
    Item.ofBytes item.toBytes = .ok item :=
  Item.ofBytes_toBytes (Item.spelled_of_sign (pack_eq_ok h))

end TripArchive.Package
