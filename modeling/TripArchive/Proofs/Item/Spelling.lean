import TripArchive.Proofs.Item.Wire

/-!
# All byte strings of an item

The reader takes more than what is written: a flag that is set may have any value but zero. Nothing
else is free, so writing back an item that was read sets its flags to one and changes no other byte
(`rewritten_plainly`), and two byte strings are read as one item exactly when they differ in the
values of set flags at most.
-/

namespace TripArchive.Item

variable {item other : Item} {bytes : Bytes} {part : Option (Octets 32)} {flag : UInt8}

/-- A flag as it is written: one if it is set. -/
def plainFlag (flag : UInt8) : UInt8 := if flag = 0 then 0 else 1

/-- Where the flag of the target stands: behind the type, the signature and the owner. -/
def targetPlace : Nat := 98

/-- Where the flag of the anchor stands: behind the flag of the target, and behind the thirty-two
bytes of the target if that flag is set. -/
def anchorPlace (bytes : Bytes) : Nat := if bytes[targetPlace]? = some 0 then 99 else 131

/-- Where the flags stand in the bytes of an item. -/
def flagPlaces (bytes : Bytes) : List Nat := [targetPlace, anchorPlace bytes]

/-- The same bytes with plain flags. -/
def plain (bytes : Bytes) : Bytes :=
  (bytes.modify targetPlace plainFlag).modify (anchorPlace bytes) plainFlag

/-- Whether two byte strings differ in the values of flags only that are set in both. -/
def SameButFlags (bytes other : Bytes) : Prop :=
  ∀ i, bytes[i]? = other[i]? ∨ i ∈ flagPlaces bytes ∧ i ∈ flagPlaces other ∧
    ∃ flag flag', bytes[i]? = some flag ∧ other[i]? = some flag' ∧ flag ≠ 0 ∧ flag' ≠ 0

/-- A plain flag is zero if the flag is. -/
theorem plainFlag_eq_zero_iff : plainFlag flag = 0 ↔ flag = 0 := by
  unfold plainFlag
  split
  · next h => simp [h]
  · next h => simp [h]

/-- A flag is plain exactly if it is zero or one. -/
theorem plainFlag_eq_self_iff : plainFlag flag = flag ↔ flag = 0 ∨ flag = 1 := by
  unfold plainFlag
  split
  · next h => simp [h]
  · next h => simp [h, eq_comm]

/-- Two flags are one when they are plain exactly if they are equal or both are set. -/
theorem plainFlag_eq_iff {flag' : UInt8} :
    plainFlag flag = plainFlag flag' ↔ flag = flag' ∨ flag ≠ 0 ∧ flag' ≠ 0 := by
  unfold plainFlag
  split
  · next h =>
    split
    · next h' => simp [h, h']
    · next h' => simp [h, Ne.symm h']
  · next h =>
    split
    · next h' => simp [h, h']
    · next h' => simp [h, h']

/-- The flag that is written is the plain one. -/
theorem plainFlag_of_announces (h : Announces flag part) : plainFlag flag = flagOf part := by
  cases part with
  | none => rw [plainFlag, if_pos (h.mpr rfl)]; rfl
  | some part =>
    have hset : ¬ flag = 0 := fun hzero => Option.some_ne_none part (h.mp hzero)
    rw [plainFlag, if_neg hset]
    rfl

/-- The flags stand at two places. -/
theorem targetPlace_ne_anchorPlace (bytes : Bytes) : targetPlace ≠ anchorPlace bytes := by
  unfold targetPlace anchorPlace
  split <;> decide

/-- Plain bytes differ from the bytes at the places of the flags only. -/
theorem getElem?_plain (bytes : Bytes) (i : Nat) :
    (plain bytes)[i]? =
      if i ∈ flagPlaces bytes then bytes[i]?.map plainFlag else bytes[i]? := by
  have hplaces := targetPlace_ne_anchorPlace bytes
  unfold plain flagPlaces
  rw [List.getElem?_modify, List.getElem?_modify]
  by_cases htarget : targetPlace = i
  · subst htarget
    simp [hplaces.symm]
  · by_cases hanchor : anchorPlace bytes = i
    · simp [hanchor, htarget]
    · simp [htarget, hanchor, Ne.symm htarget, Ne.symm hanchor]

/-- The flags stand where they stand in bytes that have the same flag of the target, set or not. -/
theorem flagPlaces_congr {bytes other : Bytes}
    (h : bytes[targetPlace]?.map plainFlag = other[targetPlace]?.map plainFlag) :
    flagPlaces bytes = flagPlaces other := by
  have hzero (bytes : Bytes) :
      bytes[targetPlace]? = some 0 ↔ bytes[targetPlace]?.map plainFlag = some 0 := by
    cases bytes[targetPlace]? with
    | none => simp
    | some flag => simp [plainFlag_eq_zero_iff]
  unfold flagPlaces anchorPlace
  simp only [hzero, h]

/-- Two bytes, if they are there, are one as plain flags exactly if they are equal or both set. -/
theorem map_plainFlag_eq_iff {first second : Option UInt8} :
    first.map plainFlag = second.map plainFlag ↔ first = second ∨
      ∃ flag flag', first = some flag ∧ second = some flag' ∧ flag ≠ 0 ∧ flag' ≠ 0 := by
  cases first <;> cases second <;> simp [plainFlag_eq_iff]

/-- Two byte strings are one when they are plain exactly if they differ in set flags only. -/
theorem plain_eq_iff {bytes other : Bytes} :
    plain bytes = plain other ↔ SameButFlags bytes other := by
  constructor
  · intro h
    have hget (i : Nat) := congrArg (fun plain : Bytes => plain[i]?) h
    simp only [getElem?_plain] at hget
    have hmem (bytes : Bytes) : targetPlace ∈ flagPlaces bytes := List.mem_cons_self
    have hplaces : flagPlaces bytes = flagPlaces other := by
      have htarget := hget targetPlace
      rw [if_pos (hmem bytes), if_pos (hmem other)] at htarget
      exact flagPlaces_congr htarget
    intro i
    have hbyte := hget i
    rw [← hplaces] at hbyte ⊢
    by_cases hplace : i ∈ flagPlaces bytes
    · rw [if_pos hplace, if_pos hplace, map_plainFlag_eq_iff] at hbyte
      exact hbyte.imp_right fun hset => ⟨hplace, hplace, hset⟩
    · rw [if_neg hplace, if_neg hplace] at hbyte
      exact Or.inl hbyte
  · intro h
    have hmap (i : Nat) : bytes[i]?.map plainFlag = other[i]?.map plainFlag :=
      map_plainFlag_eq_iff.mpr ((h i).imp_right fun hset => hset.2.2)
    have hplaces := flagPlaces_congr (hmap targetPlace)
    apply List.ext_getElem?
    intro i
    rw [getElem?_plain, getElem?_plain, ← hplaces]
    by_cases hplace : i ∈ flagPlaces bytes
    · rw [if_pos hplace, if_pos hplace, hmap]
    · rw [if_neg hplace, if_neg hplace]
      rcases h i with hsame | ⟨hflag, _⟩
      · exact hsame
      · exact absurd hflag hplace

/-- Changing the element behind a beginning. -/
theorem modify_behind {α : Type} (front back : List α) (x : α) (f : α → α) :
    (front ++ x :: back).modify front.length f = front ++ f x :: back := by
  induction front with
  | nil => rfl
  | cons y front ih => exact congrArg (y :: ·) ih

/-- The element behind a beginning. -/
theorem getElem?_behind {α : Type} (front back : List α) (x : α) :
    (front ++ x :: back)[front.length]? = some x := by
  simp

section Places

variable {target anchor : UInt8}

/-- The parts before the flags have fixed sizes. -/
theorem length_opening (item : Item) : item.opening.length = targetPlace := by
  simp [opening, targetPlace, item.signature.property, item.owner.property]

/-- The flag of the target stands at its place. -/
theorem getElem?_targetPlace (target anchor : UInt8) (item : Item) :
    (item.bytesBehind target anchor)[targetPlace]? = some target := by
  rw [← length_opening item]
  exact getElem?_behind item.opening _ target

/-- The flag of the anchor stands behind the target. -/
theorem anchorPlace_bytesBehind (htarget : Announces target item.target) :
    anchorPlace (item.bytesBehind target anchor) =
      item.opening.length + (writeBehind target item.target).length := by
  unfold anchorPlace
  rw [getElem?_targetPlace, length_opening]
  cases hpart : item.target with
  | none =>
    rw [if_pos (congrArg some (htarget.mpr hpart))]
    rfl
  | some part =>
    have hset : ¬ some target = some 0 := by
      intro hzero
      rw [htarget.mp (Option.some.inj hzero)] at hpart
      cases hpart
    rw [if_neg hset]
    simp [writeBehind, part.property, targetPlace]

/-- The bytes of an item behind flags that go with its optional parts are plain as they are
written. -/
theorem plain_bytesBehind (htarget : Announces target item.target)
    (hanchor : Announces anchor item.anchor) :
    plain (item.bytesBehind target anchor) = item.toBytes := by
  have hfirst : (item.bytesBehind target anchor).modify targetPlace plainFlag =
      item.bytesBehind (plainFlag target) anchor := by
    rw [← length_opening item]
    exact modify_behind item.opening _ target plainFlag
  have hsecond : (item.bytesBehind (plainFlag target) anchor).modify
      (item.opening.length + (writeBehind target item.target).length) plainFlag =
        item.bytesBehind (plainFlag target) (plainFlag anchor) := by
    have hbehind := modify_behind (item.opening ++ writeBehind (plainFlag target) item.target)
      ((item.anchor.map Subtype.val).getD [] ++ item.body) anchor plainFlag
    rw [List.length_append, List.append_assoc, List.append_assoc] at hbehind
    exact hbehind
  unfold plain
  rw [anchorPlace_bytesBehind htarget, hfirst, hsecond, toBytes_eq,
    plainFlag_of_announces htarget, plainFlag_of_announces hanchor]

/-- Both flags stand in the bytes of an item. -/
theorem exists_flag (htarget : Announces target item.target) {i : Nat}
    (hplace : i ∈ flagPlaces (item.bytesBehind target anchor)) :
    ∃ flag, (item.bytesBehind target anchor)[i]? = some flag := by
  rcases List.mem_cons.mp hplace with rfl | hplace
  · exact ⟨target, getElem?_targetPlace target anchor item⟩
  · rw [List.mem_singleton.mp hplace, anchorPlace_bytesBehind htarget]
    have hbehind := getElem?_behind (item.opening ++ writeBehind target item.target)
      ((item.anchor.map Subtype.val).getD [] ++ item.body) anchor
    rw [List.length_append, List.append_assoc] at hbehind
    exact ⟨anchor, hbehind⟩

end Places

/-- An item that was read is written as the same bytes with plain flags. -/
theorem toBytes_of_ofBytes (h : ofBytes bytes = .ok item) : item.toBytes = plain bytes := by
  obtain ⟨_, target, anchor, htarget, hanchor, rfl⟩ := ofBytes_eq_ok_iff.mp h
  exact (plain_bytesBehind htarget hanchor).symm

/-- Bytes that are read as an item are plain exactly if both flags are zero or one. -/
theorem plain_eq_self_iff (h : ofBytes bytes = .ok item) :
    plain bytes = bytes ↔
      ∀ i ∈ flagPlaces bytes, bytes[i]? = some 0 ∨ bytes[i]? = some 1 := by
  obtain ⟨_, target, anchor, htarget, _, rfl⟩ := ofBytes_eq_ok_iff.mp h
  constructor
  · intro hplain i hplace
    obtain ⟨flag, hflag⟩ := exists_flag htarget hplace
    have hbyte := getElem?_plain (item.bytesBehind target anchor) i
    rw [if_pos hplace, hplain, hflag] at hbyte
    rw [hflag, Option.some.injEq, Option.some.injEq]
    exact plainFlag_eq_self_iff.mp (Option.some.inj hbyte).symm
  · intro hflags
    apply List.ext_getElem?
    intro i
    rw [getElem?_plain]
    split
    · next hplace =>
      rcases hflags i hplace with hzero | hone
      · rw [hzero]
        rfl
      · rw [hone]
        rfl
    · rfl

/-- Reading and writing back keeps all bytes but the flags. An item that was read is written as the
bytes it was read from, with each flag that is set as a one; so these bytes come back exactly if
both flags are zero or one. Other bytes are read as the same item exactly if they differ from these
in the values of set flags only. -/
theorem rewritten_plainly (h : ofBytes bytes = .ok item) :
    item.toBytes = plain bytes ∧
    (item.toBytes = bytes ↔
      ∀ i ∈ flagPlaces bytes, bytes[i]? = some 0 ∨ bytes[i]? = some 1) ∧
    ∀ others other, ofBytes others = .ok other →
      (other = item ↔ SameButFlags bytes others) := by
  refine ⟨toBytes_of_ofBytes h, ?_, ?_⟩
  · rw [toBytes_of_ofBytes h]
    exact plain_eq_self_iff h
  · intro others other hothers
    rw [← plain_eq_iff, ← toBytes_of_ofBytes h, ← toBytes_of_ofBytes hothers]
    constructor
    · rintro rfl
      rfl
    · intro hwritten
      have hread := ofBytes_toBytes (spelled_of_ofBytes hothers)
      rw [← hwritten, ofBytes_toBytes (spelled_of_ofBytes h)] at hread
      exact (Except.ok.inj hread).symm

/-- An item with a target, an anchor and a tag. The tag stands in a block that says its size as
well, which is not how tag lists are written. -/
def anchored : Item where
  signature := ⟨List.replicate 64 5, List.length_replicate⟩
  owner := ⟨List.replicate 32 6, List.length_replicate⟩
  target := some ⟨List.replicate 32 7, List.length_replicate⟩
  anchor := some ⟨List.replicate 32 8, List.length_replicate⟩
  tags := [⟨"A", "B"⟩]
  rawTags := [1, 8, 2, 65, 2, 66, 0]
  data := [1, 2, 3]

/-- An item that came with the flags 7 and 255 is written with ones, and it also comes with the
flags 1 and 9. -/
theorem flags_seven_and_255 :
    ofBytes (anchored.bytesBehind 7 255) = .ok anchored ∧
      anchored.toBytes = plain (anchored.bytesBehind 7 255) ∧
      anchored.toBytes ≠ anchored.bytesBehind 7 255 ∧
      SameButFlags (anchored.bytesBehind 7 255) (anchored.bytesBehind 1 9) := by
  have hspelled : anchored.Spelled := ⟨rfl, by decide, by decide⟩
  have hset (flag : UInt8) (part : Octets 32) (hflag : flag ≠ 0) : Announces flag (some part) :=
    ⟨fun hzero => absurd hzero hflag, fun hnone => by cases hnone⟩
  have hread := ofBytes_bytesBehind hspelled (hset 7 _ (by decide))
    (hset 255 _ (by decide))
  have hother := ofBytes_bytesBehind hspelled (hset 1 _ (by decide))
    (hset 9 _ (by decide))
  obtain ⟨hwritten, hsame, hothers⟩ := rewritten_plainly hread
  refine ⟨hread, hwritten, ?_, (hothers _ anchored hother).mp rfl⟩
  intro hback
  have hflag := hsame.mp hback targetPlace List.mem_cons_self
  rw [getElem?_targetPlace] at hflag
  exact absurd hflag (by decide)

end TripArchive.Item
