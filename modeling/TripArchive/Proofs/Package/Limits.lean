import TripArchive.Proofs.Gzip.Stored
import TripArchive.Proofs.Package.RoundTrip

/-!
# What can be packed

A package carries its label in its tags. All of it but the identifier of the segment fits them as it
is: a token of sixty-four bits, two moments that can be held, and a nonce. So the identifier alone
decides whether a segment can be packed, and every package that is made opens again.
-/

namespace TripArchive

/-- A text with few characters, but not none, is short enough. -/
theorem Tag.fits_of_length {most : Nat} {text : String} (hsome : 0 < text.toList.length)
    (hfew : 4 * text.toList.length ≤ most) : Tag.Fits most text := by
  have hleast := Utf8.length_toList_le text
  have hgreatest := Utf8.length_encode_le text
  rw [Utf8.length_encode] at hleast hgreatest
  constructor <;> omega

namespace Package

variable {compressor : Gzip.Compressor} {signer : Signer} {raw : Bytes} {key : SegmentKey}
  {nonce : Nonce} {label : Label} {item : Item}

/-- A package is packed exactly when its tags keep the limits. -/
theorem exists_pack_iff :
    (∃ item, pack compressor signer raw key nonce label = .ok item) ↔
      Tag.WithinLimits (label.tags nonce) := by
  unfold pack
  simp only [mapError_eq_ok]
  exact Item.exists_sign_iff

/-- The text of an integer is not empty. -/
theorem length_toString_pos (n : Int) : 0 < (toString n).toList.length := by
  cases n with
  | ofNat m =>
    show 0 < (Nat.repr m).toList.length
    rw [Nat.toList_repr]
    exact Nat.length_toDigits_pos
  | negSucc m =>
    show 0 < ("-" ++ Nat.repr (m + 1)).toList.length
    rw [String.toList_append, List.length_append]
    exact Nat.lt_add_right _ (by decide)

/-- What the tags of a package say besides the segment is within the limits: a token of sixty-four
bits, two moments that can be held and a nonce. -/
theorem withinLimits_tags_iff (htoken : IsInt64 label.vehicleToken)
    (hstart : label.start.InCalendar) (hfinish : label.finish.InCalendar) :
    Tag.WithinLimits (label.tags nonce) ↔ Tag.Fits Tag.maxValueBytes label.segmentId := by
  have htokenFits : Tag.Fits Tag.maxValueBytes (toString label.vehicleToken) := by
    have hmagnitude : label.vehicleToken.natAbs < 10 ^ 19 := by
      obtain ⟨hlow, hhigh⟩ := htoken
      unfold minInt64 at hlow
      unfold maxInt64 at hhigh
      omega
    have hshort := length_toString_le (by decide) hmagnitude
    apply Tag.fits_of_length (length_toString_pos _)
    unfold Tag.maxValueBytes
    omega
  have htimeFits (t : Instant) (ht : t.InCalendar) :
      Tag.Fits Tag.maxValueBytes (Rfc3339.write .millis t) := by
    obtain ⟨hsome, hshort⟩ := Rfc3339.length_write_millis_le ht
    apply Tag.fits_of_length hsome
    unfold Tag.maxValueBytes
    omega
  have hnonceFits : Tag.Fits Tag.maxValueBytes (Base64.encode nonce.val) := by
    have hlength : (Base64.encode nonce.val).toList.length = 16 := by
      rw [Base64.encode, String.toList_ofList, Base64.length_encodeWith_padded, nonce.property]
    apply Tag.fits_of_length <;> rw [hlength] <;> decide
  have hnames : ∀ tag ∈ label.tags nonce, Tag.Fits Tag.maxNameBytes tag.name := by
    simp only [Label.tags, List.forall_mem_cons]
    decide
  constructor
  · intro h
    exact (h.2 ⟨"Segment-ID", label.segmentId⟩ (by simp [Label.tags])).2
  · intro hid
    refine ⟨by simp [Label.tags, Tag.maxCount], fun tag hmem => ⟨hnames tag hmem, ?_⟩⟩
    simp only [Label.tags, List.mem_cons, List.not_mem_nil, or_false] at hmem
    rcases hmem with rfl | rfl | rfl | rfl | rfl | rfl | rfl
    · decide
    · decide
    · exact htokenFits
    · exact hid
    · exact htimeFits _ hstart
    · exact htimeFits _ hfinish
    · exact hnonceFits

/-- The sign and the digits of a number may stand in a name. -/
theorem map_nameChar_toString (n : Int) :
    (toString n).toList.map nameChar = (toString n).toList := by
  have hdigits (m : Nat) : (Nat.repr m).toList.map nameChar = (Nat.repr m).toList := by
    refine (List.map_congr_left fun c hc => ?_).trans (List.map_id _)
    rw [Nat.toList_repr] at hc
    have hdigit := Nat.isDigit_of_mem_toDigits (by decide) (by decide) hc
    simp only [Char.isDigit, Bool.and_eq_true, decide_eq_true_eq] at hdigit
    apply if_pos
    simp only [isNameChar, Bool.or_eq_true, Bool.and_eq_true, decide_eq_true_eq]
    exact Or.inl (Or.inl (Or.inr hdigit))
  cases n with
  | ofNat m => exact hdigits m
  | negSucc m =>
    show ("-" ++ Nat.repr (m + 1)).toList.map nameChar = ("-" ++ Nat.repr (m + 1)).toList
    rw [String.toList_append, List.map_append, hdigits]
    rfl

/-- The name of an entry as it is spelled: the segment in characters that may stand in a name,
between the token and the seconds. -/
def Label.spelledName (label : Label) : String :=
  toString label.vehicleToken ++ "_" ++ String.ofList (label.segmentId.toList.map nameChar) ++
    "_" ++ toString label.start.seconds ++ "_" ++ toString label.finish.seconds ++ ".json"

/-- Only the segment is changed for the name of the entry. -/
theorem Label.spelledName_eq (label : Label) : label.spelledName = label.entryName.text := by
  have hbar : "_".toList.map nameChar = "_".toList := rfl
  apply String.toList_injective
  simp only [Label.spelledName, Label.entryName, Label.nameChars, String.toList_append,
    String.toList_ofList, List.map_append, map_nameChar_toString, hbar]
  rfl

/-- Packing goes back and forth. The name put together from a label is one that an entry can carry,
so that nothing stops the compression. A segment is packed exactly when its identifier has 1 to 3072
bytes, whatever its characters, the token, the times, the key and the nonce. What was packed, by
whatever compressor, is read back from its bytes and opens under its key to one entry, with that
name and the telemetry. -/
theorem pack_round_trips (htoken : IsInt64 label.vehicleToken)
    (hstart : label.start.InCalendar) (hfinish : label.finish.InCalendar) :
    Gzip.Name.ofString? label.spelledName = some label.entryName ∧
    ((∃ item, pack compressor signer raw key nonce label = .ok item) ↔
      1 ≤ label.segmentId.utf8ByteSize ∧ label.segmentId.utf8ByteSize ≤ 3072) ∧
    ∀ item, signer.scheme.Sound → pack compressor signer raw key nonce label = .ok item →
      ∃ arrived, Item.ofBytes item.toBytes = .ok arrived ∧
        unpack signer.scheme arrived key = .ok [⟨some label.spelledName, raw⟩] := by
  rw [label.spelledName_eq]
  refine ⟨?_, ?_, ?_⟩
  · exact dif_pos label.entryName.noNul
  · rw [exists_pack_iff]
    exact withinLimits_tags_iff htoken hstart hfinish
  · intro item hsound h
    exact ⟨item, ofBytes_of_pack h, unpack_of_pack hsound h⟩

/-- A segment named by a NUL and an umlaut, of the least token and begun in a leap second, is packed
and opens again. -/
theorem umlaut_opens_again :
    ∃ item, pack .stored ⟨Ed25519.scheme.exact, ⟨List.replicate 32 3, rfl⟩⟩ [1, 2, 3]
        ⟨List.replicate 32 7, rfl⟩ ⟨List.replicate 12 9, rfl⟩
        ⟨minInt64, "\x00ü", ⟨1483228799, 1500000000⟩, ⟨1483228800, 0⟩⟩ = .ok item ∧
      ∃ arrived, Item.ofBytes item.toBytes = .ok arrived ∧
        unpack Ed25519.scheme.exact arrived ⟨List.replicate 32 7, rfl⟩ =
          .ok [⟨some "-9223372036854775808____1483228799_1483228800.json", [1, 2, 3]⟩] := by
  obtain ⟨_, hpacked, hopens⟩ := @pack_round_trips
    .stored ⟨Ed25519.scheme.exact, ⟨List.replicate 32 3, rfl⟩⟩ [1, 2, 3]
    ⟨List.replicate 32 7, rfl⟩ ⟨List.replicate 12 9, rfl⟩
    ⟨minInt64, "\x00ü", ⟨1483228799, 1500000000⟩, ⟨1483228800, 0⟩⟩
    (by decide) (by decide) (by decide)
  obtain ⟨item, h⟩ := hpacked.mpr (by decide)
  exact ⟨item, h, hopens item (SignatureScheme.exact_sound Ed25519.scheme) h⟩

end Package

end TripArchive
