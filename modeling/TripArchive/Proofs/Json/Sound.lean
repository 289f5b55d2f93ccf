import TripArchive.Json.Record
import TripArchive.Proofs.Json.Numbers
import TripArchive.Proofs.Number.Finite

/-!
# What a text can say

A number of a text that is in range is an integer of sixty-four bits or a finite double
(`sound_of_parse?`), and so is every number that a reader is given. So what a reader gives may be
bounded by what it does with sound texts.
-/

namespace TripArchive.Json

/-- Whether a number is in range. -/
def Number.Sound : Number → Prop
  | int n => InRange n
  | double x => x.isFinite = true

namespace Raw

mutual

/-- Every number in a text that counts is in range. -/
def Sound : Raw → Prop
  | .null => True
  | .bool _ => True
  | .number n => ∀ found ∈ n, found.Sound
  | .string _ => True
  | .array items => SoundItems items
  | .object fields => SoundFields fields

/-- Every item is sound. -/
def SoundItems : List Raw → Prop
  | [] => True
  | item :: items => Sound item ∧ SoundItems items

/-- The text of every field is sound. -/
def SoundFields : List (Option String × Raw) → Prop
  | [] => True
  | (_, value) :: fields => Sound value ∧ SoundFields fields

end

/-- Each of some sound items is sound. -/
theorem SoundItems.of_mem {item : Raw} {items : List Raw} (h : SoundItems items)
    (hmem : item ∈ items) : item.Sound := by
  induction items with
  | nil => cases hmem
  | cons first items ih =>
    rcases List.mem_cons.mp hmem with rfl | hlater
    · exact h.1
    · exact ih h.2 hlater

variable {fuel : Nat} {bytes rest : Bytes} {raw : Raw}

/-- The number that some digits spell is in range if there is one. -/
theorem sound_numberOf {negative : Bool} {whole : Bytes} {fraction : Option Bytes}
    {exponent : Option Int} :
    ∀ found ∈ numberOf negative whole fraction exponent, found.Sound := by
  intro found hfound
  unfold numberOf at hfound
  dsimp only at hfound
  generalize digitsValue (whole ++ fraction.getD []) = mantissa at hfound
  have hspan : span 64 = 18446744073709551616 ∧ span 63 = 9223372036854775808 := by decide
  split at hfound
  · next hfits =>
    obtain ⟨-, -, -, hlarge, hnegative⟩ := hfits
    rw [hspan.1] at hlarge
    rw [hspan.2] at hnegative
    cases hfound
    show InRange _
    unfold InRange minInt64 maxNat64
    cases negative with
    | true =>
      have hleast := hnegative rfl
      simp only [if_true]
      omega
    | false =>
      simp only [Bool.false_eq_true, if_false]
      omega
  · obtain ⟨x, hx, rfl⟩ := Option.map_eq_some_iff.mp hfound
    exact Double.isFinite_of_ofDecimal? hx

/-- A number that is read is in range if it counts. -/
theorem sound_of_number? (h : number? bytes = some (raw, rest)) : raw.Sound := by
  obtain ⟨negative, tail, -, h⟩ := unsigned?_of_number? h
  obtain ⟨_, _, h⟩ := Option.bind_eq_some_iff.mp h
  obtain ⟨_, _, h⟩ := Option.bind_eq_some_iff.mp h
  obtain ⟨_, _, h⟩ := Option.map_eq_some_iff.mp h
  cases h
  exact sound_numberOf

/-- Whether every part of a text that is read with some fuel is sound. -/
structure SoundWith (fuel : Nat) : Prop where
  value {bytes rest : Bytes} {raw : Raw} : value? fuel bytes = some (raw, rest) → raw.Sound
  items {bytes rest : Bytes} {items : List Raw} :
    items? fuel bytes = some (items, rest) → SoundItems items
  field {bytes rest : Bytes} {key : Option String} {value : Raw} :
    field? fuel bytes = some ((key, value), rest) → value.Sound
  fields {bytes rest : Bytes} {fields : List (Option String × Raw)} :
    fields? fuel bytes = some (fields, rest) → SoundFields fields

/-- A value with sound parts is sound. -/
theorem SoundWith.value_succ (h : SoundWith fuel)
    (hread : value? (fuel + 1) bytes = some (raw, rest)) : raw.Sound := by
  unfold value? at hread
  split at hread
  case h_1 => cases hread
  case h_2 | h_3 | h_4 | h_5 =>
    obtain ⟨_, _, hread⟩ := Option.map_eq_some_iff.mp hread
    cases hread
    trivial
  case h_6 =>
    split at hread
    · cases hread
      trivial
    · simp only [Option.bind_eq_bind, Option.bind_eq_some_iff] at hread
      obtain ⟨⟨item, _⟩, hfirst, ⟨items, _⟩, hothers, hread⟩ := hread
      cases hread
      exact ⟨h.value hfirst, h.items hothers⟩
  case h_7 =>
    split at hread
    · cases hread
      trivial
    · simp only [Option.bind_eq_bind, Option.bind_eq_some_iff] at hread
      obtain ⟨⟨⟨key, value⟩, _⟩, hfirst, ⟨fields, _⟩, hothers, hread⟩ := hread
      cases hread
      exact ⟨h.field hfirst, h.fields hothers⟩
  case h_8 => exact sound_of_number? hread

/-- Items are sound if the first and the later ones are. -/
theorem SoundWith.items_succ (h : SoundWith fuel) {items : List Raw}
    (hread : items? (fuel + 1) bytes = some (items, rest)) : SoundItems items := by
  unfold items? at hread
  split at hread
  · cases hread
    trivial
  · simp only [Option.bind_eq_bind, Option.bind_eq_some_iff] at hread
    obtain ⟨_, _, ⟨item, _⟩, hfirst, ⟨items, _⟩, hothers, hread⟩ := hread
    cases hread
    exact ⟨h.value hfirst, h.items hothers⟩

/-- A field is sound if its value is. -/
theorem SoundWith.field_succ (h : SoundWith fuel) {key : Option String} {value : Raw}
    (hread : field? (fuel + 1) bytes = some ((key, value), rest)) : value.Sound := by
  unfold field? at hread
  simp only [Option.bind_eq_bind, Option.bind_eq_some_iff] at hread
  obtain ⟨_, _, ⟨_, _⟩, _, _, _, ⟨found, _⟩, hfound, hread⟩ := hread
  cases hread
  exact h.value hfound

/-- Fields are sound if the first and the later ones are. -/
theorem SoundWith.fields_succ (h : SoundWith fuel) {fields : List (Option String × Raw)}
    (hread : fields? (fuel + 1) bytes = some (fields, rest)) : SoundFields fields := by
  unfold fields? at hread
  split at hread
  · cases hread
    trivial
  · simp only [Option.bind_eq_bind, Option.bind_eq_some_iff] at hread
    obtain ⟨_, _, ⟨⟨key, value⟩, _⟩, hfirst, ⟨fields, _⟩, hothers, hread⟩ := hread
    cases hread
    exact ⟨h.field hfirst, h.fields hothers⟩

/-- What is read is sound, whichever part of a text it is. -/
theorem soundWith (fuel : Nat) : SoundWith fuel := by
  induction fuel with
  | zero => exact ⟨nofun, nofun, nofun, nofun⟩
  | succ fuel ih => exact ⟨ih.value_succ, ih.items_succ, ih.field_succ, ih.fields_succ⟩

/-- A text that is read is sound. -/
theorem sound_of_parse? (h : Raw.parse? bytes = some raw) : raw.Sound := by
  unfold Raw.parse? at h
  split at h
  · next hread =>
    split at h
    · cases h
      exact (soundWith _).value hread
    · cases h
  · cases h

end Raw

namespace Slots

/-- Whether what is sent for each field is sound. -/
def Sound (slots : Slots) : Prop := ∀ raw, some raw ∈ slots → raw.Sound

/-- What an object sends for a field is sound. -/
theorem sound_of_find? {name : String} {fields : List (Option String × Raw)} {raw : Raw}
    (h : Raw.SoundFields fields) (hfind : find? name fields = some (some raw)) : raw.Sound := by
  induction fields with
  | nil => cases hfind
  | cons field fields ih =>
    obtain ⟨key, value⟩ := field
    obtain ⟨hvalue, hfields⟩ := h
    simp only [find?, Option.bind_eq_bind, Option.bind_eq_some_iff] at hfind
    obtain ⟨later, hlater, hfind⟩ := hfind
    split at hfind
    · split at hfind
      · cases hfind
      · cases hfind
        exact hvalue
    · cases hfind
      exact ih hfields hlater

/-- What an object sends for the fields of a record is sound. -/
theorem sound_of_mapM {names : List String} {fields : List (Option String × Raw)} {slots : Slots}
    (h : Raw.SoundFields fields)
    (hslots : (names.mapM fun name => find? name fields) = some slots) : slots.Sound := by
  induction names generalizing slots with
  | nil =>
    cases hslots
    nofun
  | cons name names ih =>
    simp only [List.mapM_cons, Option.bind_eq_bind, Option.pure_def, Option.bind_eq_some_iff]
      at hslots
    obtain ⟨slot, hslot, others, hothers, hslots⟩ := hslots
    cases hslots
    intro raw hraw
    rcases List.mem_cons.mp hraw with rfl | hlater
    · exact sound_of_find? h hslot
    · exact ih hothers raw hlater

/-- What a text sends for the fields of a record is sound. -/
theorem sound_of_ofRaw? {names : List String} {raw : Raw} {slots : Slots} (h : raw.Sound)
    (hslots : ofRaw? names raw = some slots) : slots.Sound := by
  cases raw with
  | null => cases hslots
  | bool _ => cases hslots
  | number _ => cases hslots
  | string _ => cases hslots
  | array items =>
    simp only [ofRaw?, ofItems?] at hslots
    split at hslots
    · cases hslots
      intro raw hraw
      rcases List.mem_append.mp hraw with hitem | hnone
      · obtain ⟨item, hitem, hsome⟩ := List.mem_map.mp hitem
        cases hsome
        exact Raw.SoundItems.of_mem h hitem
      · cases List.eq_of_mem_replicate hnone
    · cases hslots
  | object fields =>
    simp only [ofRaw?, ofFields?] at hslots
    split at hslots
    · exact sound_of_mapM h hslots
    · cases hslots

/-- What is sent for a field is sound. -/
theorem Sound.get {slots : Slots} (h : slots.Sound) {i : Nat} {raw : Raw}
    (hsent : slots.get i = some raw) : raw.Sound := by
  unfold Slots.get at hsent
  rw [List.getD_eq_getElem?_getD] at hsent
  cases hplace : slots[i]? with
  | none =>
    rw [hplace] at hsent
    cases hsent
  | some sent =>
    rw [hplace, Option.getD_some] at hsent
    subst hsent
    exact h raw (List.mem_of_getElem? hplace)

end Slots

namespace Reader

variable {α : Type} {P : α → Prop} {read : Reader α}

/-- Whether everything that a reader reads in a sound text satisfies `P`. -/
def Gives (P : α → Prop) (read : Reader α) : Prop :=
  ∀ depth raw a, raw.Sound → read depth raw = some a → P a

/-- A required field is read by its reader. -/
theorem Gives.required (h : Gives P read) {slots : Slots} (hslots : slots.Sound) {i depth : Nat}
    {a : α} (hread : slots.required i read depth = some a) : P a := by
  obtain ⟨raw, hsent, hraw⟩ := Option.bind_eq_some_iff.mp hread
  exact h depth raw a (hslots.get hsent) hraw

/-- A field with a default is read by its reader, or it is the default. -/
theorem Gives.withDefault (h : Gives P read) {slots : Slots} (hslots : slots.Sound) {default : α}
    (hdefault : P default) {i depth : Nat} {a : α}
    (hread : slots.withDefault i default read depth = some a) : P a := by
  unfold Slots.withDefault at hread
  split at hread
  · cases hread
    exact hdefault
  · next raw hsent => exact h depth raw a (hslots.get hsent) hread

/-- What is read in place of null satisfies what the reader gives. -/
theorem Gives.nullable (h : Gives P read) :
    Gives (fun found => ∀ a ∈ found, P a) read.nullable := by
  intro depth raw found hsound hread
  unfold Reader.nullable at hread
  split at hread
  · cases hread
    nofun
  · obtain ⟨a, hraw, rfl⟩ := Option.map_eq_some_iff.mp hread
    rintro _ ⟨⟩
    exact h depth _ a hsound hraw

/-- A record is read from sound fields. -/
theorem Gives.record {names : List String} {fields : Slots → (depth : Nat) → Option α}
    (h : ∀ slots depth a, slots.Sound → fields slots depth = some a → P a) :
    Gives P (record names fields) := by
  intro depth raw a hsound hread
  unfold Reader.record at hread
  split at hread
  · cases hread
  · obtain ⟨slots, hraw, hslots⟩ := Option.bind_eq_some_iff.mp hread
    exact h slots _ a (Slots.sound_of_ofRaw? hsound hraw) hslots

/-- What is decoded satisfies what the reader gives. -/
theorem Gives.decode (h : Gives P read) {bytes : Bytes} {a : α}
    (hdecode : decode? read bytes = some a) : P a := by
  obtain ⟨raw, hparse, hread⟩ := Option.bind_eq_some_iff.mp hdecode
  exact h _ raw a (Raw.sound_of_parse? hparse) hread

/-- Doubles are read as finite ones. -/
theorem gives_double : Gives (fun x => x.isFinite = true) double := by
  intro depth raw x hsound hread
  unfold double at hread
  split at hread
  · next n =>
    cases hread
    obtain ⟨hlow, hhigh⟩ := hsound (.int n) rfl
    exact Double.isFinite_ofInt hlow hhigh
  · next x =>
    cases hread
    exact hsound (.double _) rfl
  · cases hread

end Reader

end TripArchive.Json
