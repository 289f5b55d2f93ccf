import TripArchive.Proofs.Item.Wire

/-!
# What a signature binds

The message of an item is the end of a chain of digests. Followed backwards, one message of two
items leads to the same parts in both, or to a byte string hashed for the one and a different one
hashed for the other with one digest: `signature_binds_item`.
-/

namespace TripArchive

namespace Deep

/-- What is hashed for one byte string. -/
def blobInputs (data : Bytes) : List Bytes :=
  [Utf8.encode "blob" ++ decimal data.length, data,
    Sha2.sha384 (Utf8.encode "blob" ++ decimal data.length) ++ Sha2.sha384 data]

/-- What is hashed when a running hash takes in a byte string. -/
def absorbInputs (acc item : Bytes) : List Bytes := blobInputs item ++ [acc ++ hashBlob item]

/-- What is hashed when a running hash takes in byte strings in order. -/
def foldInputs (acc : Bytes) : List Bytes → List Bytes
  | [] => []
  | item :: items => absorbInputs acc item ++ foldInputs (absorb acc item) items

/-- What is hashed for a list of byte strings. -/
def listInputs (items : List Bytes) : List Bytes :=
  (Utf8.encode "list" ++ decimal items.length) ::
    foldInputs (Sha2.sha384 (Utf8.encode "list" ++ decimal items.length)) items

/-- A byte string hashed in one place and a different one hashed in another have one digest. -/
def Collision (here there : List Bytes) : Prop :=
  ∃ first ∈ here, ∃ second ∈ there, first ≠ second ∧ Sha2.sha384 first = Sha2.sha384 second

variable {here there here' there' items others : List Bytes}
  {first second acc acc' item other : Bytes}

/-- A collision stays one when more is hashed. -/
theorem Collision.mono (h : Collision here there) (hhere : here ⊆ here')
    (hthere : there ⊆ there') : Collision here' there' := by
  obtain ⟨first, hfirst, second, hsecond, hne, hdigest⟩ := h
  exact ⟨first, hhere hfirst, second, hthere hsecond, hne, hdigest⟩

/-- Hashed byte strings with one digest are the same, or collide. -/
theorem eq_or_collision (hfirst : first ∈ here) (hsecond : second ∈ there)
    (h : Sha2.sha384 first = Sha2.sha384 second) : first = second ∨ Collision here there := by
  by_cases heq : first = second
  · exact .inl heq
  · exact .inr ⟨first, hfirst, second, hsecond, heq, h⟩

/-- All digests have one length. -/
theorem length_digests (first second : Bytes) :
    (Sha2.sha384 first).length = (Sha2.sha384 second).length :=
  (Sha2.length_sha384 first).trans (Sha2.length_sha384 second).symm

/-- The hash of a byte string binds it. -/
theorem hashBlob_binds (h : hashBlob item = hashBlob other) :
    item = other ∨ Collision (blobInputs item) (blobInputs other) := by
  have hmem : ∀ data, data ∈ blobInputs data := fun data => by simp [blobInputs]
  have hlast : ∀ data, Sha2.sha384 (Utf8.encode "blob" ++ decimal data.length) ++
      Sha2.sha384 data ∈ blobInputs data := fun data => by simp [blobInputs]
  rcases eq_or_collision (hlast item) (hlast other) h with hparts | hcollision
  · have hdigest := (List.append_inj hparts (length_digests _ _)).2
    exact eq_or_collision (hmem item) (hmem other) hdigest
  · exact .inr hcollision

/-- A running hash binds what it was before and what it took in. -/
theorem absorb_binds (hlength : acc.length = acc'.length)
    (h : absorb acc item = absorb acc' other) :
    (acc = acc' ∧ item = other) ∨ Collision (absorbInputs acc item) (absorbInputs acc' other) := by
  have hlast : ∀ acc item, acc ++ hashBlob item ∈ absorbInputs acc item :=
    fun acc item => List.mem_append_right _ (List.mem_singleton_self _)
  rcases eq_or_collision (hlast acc item) (hlast acc' other) h with hparts | hcollision
  · obtain ⟨hacc, hblob⟩ := List.append_inj hparts hlength
    rcases hashBlob_binds hblob with hitem | hcollision
    · exact .inl ⟨hacc, hitem⟩
    · exact .inr (hcollision.mono (List.subset_append_left _ _) (List.subset_append_left _ _))
  · exact .inr hcollision

/-- A running hash binds everything that it took in, if the number is known. -/
theorem fold_binds (hcount : items.length = others.length) (hlength : acc.length = acc'.length)
    (h : items.foldl absorb acc = others.foldl absorb acc') :
    (acc = acc' ∧ items = others) ∨ Collision (foldInputs acc items) (foldInputs acc' others) := by
  induction items generalizing others acc acc' with
  | nil =>
    cases others with
    | nil => exact .inl ⟨h, rfl⟩
    | cons other others => cases hcount
  | cons item items ih =>
    cases others with
    | nil => cases hcount
    | cons other others =>
      -- The rest leads back to the running hash after the first byte string.
      rcases ih (Nat.succ.inj hcount) (length_digests _ _) h with ⟨hnext, hitems⟩ | hcollision
      · rcases absorb_binds hlength hnext with ⟨hacc, hitem⟩ | hcollision
        · exact .inl ⟨hacc, by rw [hitem, hitems]⟩
        · exact .inr (hcollision.mono (List.subset_append_left _ _) (List.subset_append_left _ _))
      · exact .inr (hcollision.mono (List.subset_append_right _ _) (List.subset_append_right _ _))

/-- The hash of a list of byte strings binds each of them, if the number is known. -/
theorem hashList_binds (hcount : items.length = others.length)
    (h : hashList items = hashList others) :
    items = others ∨ Collision (listInputs items) (listInputs others) := by
  rcases fold_binds hcount (length_digests _ _) h with ⟨_, hitems⟩ | hcollision
  · exact .inl hitems
  · exact .inr (hcollision.mono (List.subset_cons_self _ _) (List.subset_cons_self _ _))

end Deep

namespace Item

/-- What the signature of an item is over. -/
structure Content where
  owner : Octets 32
  target : Option (Octets 32)
  anchor : Option (Octets 32)
  rawTags : Bytes
  data : Bytes

/-- What the signature of this item is over. -/
def content (item : Item) : Content :=
  ⟨item.owner, item.target, item.anchor, item.rawTags, item.data⟩

namespace Content

variable {content other : Content}

/-- The message that is signed. -/
def message (content : Content) : Bytes :=
  signatureMessage content.owner content.target content.anchor content.rawTags content.data

/-- The byte strings that the message is the hash of. -/
def parts (content : Content) : List Bytes :=
  [Utf8.encode "dataitem", Utf8.encode "1", Deep.decimal ed25519Type, content.owner.val,
    (content.target.map Subtype.val).getD [], (content.anchor.map Subtype.val).getD [],
    content.rawTags, content.data]

/-- What is hashed for the message. -/
def hashed (content : Content) : List Bytes := Deep.listInputs content.parts

/-- A part of thirty-two bytes is told from an absent one by its length. -/
theorem optional_eq {part other : Option (Octets 32)}
    (h : (part.map Subtype.val).getD [] = (other.map Subtype.val).getD []) : part = other := by
  cases part with
  | none =>
    cases other with
    | none => rfl
    | some other =>
      have hlength := other.property
      rw [← show ([] : Bytes) = other.val from h] at hlength
      cases hlength
  | some part =>
    cases other with
    | none =>
      have hlength := part.property
      rw [show part.val = ([] : Bytes) from h] at hlength
      cases hlength
    | some other => exact congrArg some (Subtype.ext h)

/-- The parts say what they are parts of. -/
theorem eq_of_parts (h : content.parts = other.parts) : content = other := by
  unfold parts at h
  simp only [List.cons.injEq, true_and, and_true] at h
  obtain ⟨howner, htarget, hanchor, hrawTags, hdata⟩ := h
  cases content
  cases other
  cases Subtype.ext howner
  cases optional_eq htarget
  cases optional_eq hanchor
  cases hrawTags
  cases hdata
  rfl

/-- The message is the hash of the parts. -/
theorem message_eq (content : Content) : content.message = Deep.hashList content.parts := rfl

/-- One message is over one content, or the digests collide. -/
theorem eq_of_message (h : content.message = other.message) :
    content = other ∨ Deep.Collision content.hashed other.hashed := by
  rw [message_eq, message_eq] at h
  have hcount : content.parts.length = other.parts.length := rfl
  exact (Deep.hashList_binds hcount h).imp_left eq_of_parts

end Content

/-- An item is signed over its content. -/
theorem message_content (item : Item) : item.content.message = item.message := rfl

/-- The signature binds the whole item. Two contents with one message are equal in their owners,
targets, anchors, tag bytes and data, or a byte string hashed for the one and a different one hashed
for the other have one digest. Short of that, two items that were read and whose signatures are
checked over one message have the same owner, target, anchor, tags and data. -/
theorem signature_binds_item :
    (∀ content other : Content, content.message = other.message →
      content = other ∨ Deep.Collision content.hashed other.hashed) ∧
    ∀ (bytes bytes' : Bytes) (item other : Item), ofBytes bytes = .ok item →
      ofBytes bytes' = .ok other → item.message = other.message →
      (item.owner = other.owner ∧ item.target = other.target ∧ item.anchor = other.anchor ∧
        item.tags = other.tags ∧ item.data = other.data) ∨
        Deep.Collision item.content.hashed other.content.hashed := by
  refine ⟨fun content other => Content.eq_of_message, ?_⟩
  intro bytes bytes' item other hitem hother hmessage
  rw [← message_content, ← message_content] at hmessage
  refine (Content.eq_of_message hmessage).imp_left fun hcontent => ?_
  obtain ⟨howner, htarget, hanchor, hrawTags, hdata⟩ := Content.mk.inj hcontent
  -- The tags are what the tag bytes spell.
  have htags := (spelled_of_ofBytes hitem).read
  rw [hrawTags, (spelled_of_ofBytes hother).read] at htags
  exact ⟨howner, htarget, hanchor, (Except.ok.inj htags).symm, hdata⟩

/-- Three bytes under a signature of one repeated byte. -/
def stamped (stamp : UInt8) : Item :=
  ⟨⟨List.replicate 64 stamp, rfl⟩, ⟨List.replicate 32 7, rfl⟩, none,
    some ⟨List.replicate 32 9, rfl⟩, [], [], [1, 2, 3]⟩

/-- The bytes of two items differ by their signatures alone, and both signatures are checked over
one message. -/
theorem stamped_items_bound :
    ∃ first second, ofBytes (stamped 1).toBytes = .ok first ∧
      ofBytes (stamped 2).toBytes = .ok second ∧ first.signature ≠ second.signature ∧
      first.message = second.message ∧
      ((first.owner = second.owner ∧ first.target = second.target ∧
          first.anchor = second.anchor ∧ first.tags = second.tags ∧ first.data = second.data) ∨
        Deep.Collision first.content.hashed second.content.hashed) := by
  have hnone : 0 < Nat.pow 256 8 := by decide
  have hspelled : ∀ stamp, (stamped stamp).Spelled := fun stamp => ⟨rfl, hnone, hnone⟩
  have hfirst := ofBytes_toBytes (hspelled 1)
  have hsecond := ofBytes_toBytes (hspelled 2)
  exact ⟨stamped 1, stamped 2, hfirst, hsecond, by decide, rfl,
    signature_binds_item.2 _ _ _ _ hfirst hsecond rfl⟩

end Item

end TripArchive
