import Mathlib.Data.List.Forall2
import TripArchive.Proofs.Json.Canonical

/-!
# Reading what was kept

A text may be read by a reader at once, or be kept as a value that the reader reads later. Keeping
asks more: every number has to be in range, every string and key a text, and nothing may nest too
deep, also where the reader would not look (`isSome_value_iff`). What is kept, however, a reader
reads as it reads the text (`Keeps`), although keeping orders the fields of an object and leaves
only the last of those with one key.
-/

namespace TripArchive.Json

namespace Raw

mutual

/-- Whether a text can be kept: its numbers are in range, its strings and keys are texts, and it
nests at most `depth` deep. -/
def Plain (depth : Nat) : Raw → Prop
  | .null => True
  | .bool _ => True
  | .number n => n ≠ none
  | .string s => s ≠ none
  | .array items => 0 < depth ∧ PlainItems (depth - 1) items
  | .object fields => 0 < depth ∧ PlainFields (depth - 1) fields

/-- Every item can be kept. -/
def PlainItems (depth : Nat) : List Raw → Prop
  | [] => True
  | item :: items => Plain depth item ∧ PlainItems depth items

/-- Every key is a text, and the text of every field can be kept. -/
def PlainFields (depth : Nat) : List (Option String × Raw) → Prop
  | [] => True
  | (key, field) :: fields => key ≠ none ∧ Plain depth field ∧ PlainFields depth fields

end

mutual

/-- A text has a value exactly if it can be kept. -/
theorem isSome_value_iff (depth : Nat) (raw : Raw) :
    (value depth raw).isSome = true ↔ raw.Plain depth := by
  cases raw with
  | null => simp [value, Plain]
  | bool b => simp [value, Plain]
  | number n => cases n <;> simp [value, Plain]
  | string s => cases s <;> simp [value, Plain]
  | array items =>
    rw [value, Plain, ← isSome_values_iff (depth - 1) items]
    split
    · next hdepth => simp [hdepth]
    · next hdepth => simp [Nat.pos_of_ne_zero hdepth]
  | object fields =>
    rw [value, Plain, ← isSome_fieldValues_iff (depth - 1) fields]
    split
    · next hdepth => simp [hdepth]
    · next hdepth => simp [Nat.pos_of_ne_zero hdepth]

/-- Items have values exactly if each of them can be kept. -/
theorem isSome_values_iff (depth : Nat) (items : List Raw) :
    (values depth items).isSome = true ↔ PlainItems depth items := by
  cases items with
  | nil => simp [values, PlainItems]
  | cons item items =>
    rw [values, PlainItems, ← isSome_value_iff depth item, ← isSome_values_iff depth items]
    cases value depth item <;> cases values depth items <;> simp

/-- Fields have values exactly if each of them can be kept. -/
theorem isSome_fieldValues_iff (depth : Nat) (fields : List (Option String × Raw)) :
    (fieldValues depth fields).isSome = true ↔ PlainFields depth fields := by
  cases fields with
  | nil => simp [fieldValues, PlainFields]
  | cons field fields =>
    obtain ⟨key, field⟩ := field
    rw [fieldValues, PlainFields, ← isSome_value_iff depth field,
      ← isSome_fieldValues_iff depth fields]
    cases key <;> cases value depth field <;> cases fieldValues depth fields <;> simp

end

end Raw

/-! ### Fields in the order of their keys -/

section Fields

variable {key name : String} {value : Json} {kept : List (String × Json)}

/-- A field is found under its key, and behind it are the others. -/
theorem lookup_cons_eq (name key : String) (value : Json) (kept : List (String × Json)) :
    ((key, value) :: kept).lookup name = if name = key then some value else kept.lookup name := by
  by_cases hname : name = key
  · rw [hname, List.lookup_cons_self, if_pos rfl]
  · rw [if_neg hname, List.lookup_cons, beq_false_of_ne hname]

/-- A field that is put in its place is found under its key, and the others stay where they were. -/
theorem lookup_putSorted (name key : String) (value : Json) (kept : List (String × Json)) :
    (putSorted key value kept).lookup name =
      if name = key then some value else kept.lookup name := by
  induction kept with
  | nil => exact lookup_cons_eq name key value []
  | cons field kept ih =>
    obtain ⟨k, v⟩ := field
    rw [putSorted]
    split
    · next hsame =>
      subst hsame
      rw [lookup_cons_eq, lookup_cons_eq]
      split <;> rfl
    · next hother =>
      split
      · rw [lookup_cons_eq]
      · rw [lookup_cons_eq, lookup_cons_eq, ih]
        by_cases hname : name = key
        · have hfirst : ¬name = k := fun hk => hother (hname.symm.trans hk)
          rw [if_neg hfirst, if_pos hname, if_pos hname]
        · rw [if_neg hname, if_neg hname]

/-- The keys are those that there were and the one of the field that is put in its place. -/
theorem mem_putSorted {field : String × Json} (h : field ∈ putSorted key value kept) :
    field.1 = key ∨ field ∈ kept := by
  induction kept with
  | nil =>
    rw [List.mem_singleton.mp h]
    exact .inl rfl
  | cons first kept ih =>
    rw [putSorted] at h
    split at h
    · rcases List.mem_cons.mp h with rfl | hrest
      · exact .inl rfl
      · exact .inr (List.mem_cons_of_mem _ hrest)
    · split at h
      · rcases List.mem_cons.mp h with rfl | hrest
        · exact .inl rfl
        · exact .inr hrest
      · rcases List.mem_cons.mp h with rfl | hrest
        · exact .inr List.mem_cons_self
        · exact (ih hrest).imp_right (List.mem_cons_of_mem _)

/-- Fields stay in strict order when another one is put in its place. -/
theorem pairwise_putSorted (h : kept.Pairwise fun a b => a.1 < b.1) :
    (putSorted key value kept).Pairwise fun a b => a.1 < b.1 := by
  induction kept with
  | nil => exact List.pairwise_singleton _ _
  | cons first kept ih =>
    obtain ⟨hfirst, hrest⟩ := List.pairwise_cons.mp h
    rw [putSorted]
    split
    · next hsame =>
      subst hsame
      exact List.pairwise_cons.mpr ⟨hfirst, hrest⟩
    · next hother =>
      split
      · next hbefore =>
        refine List.pairwise_cons.mpr ⟨fun field hfield => ?_, h⟩
        rcases List.mem_cons.mp hfield with rfl | hlater
        · exact hbefore
        · exact String.lt_trans hbefore (hfirst field hlater)
      · next hbehind =>
        refine List.pairwise_cons.mpr ⟨fun field hfield => ?_, ih hrest⟩
        rcases mem_putSorted hfield with hkey | hlater
        · rw [hkey]
          exact Decidable.byContradiction fun hnot =>
            hother (String.le_antisymm (String.not_lt.mp hnot) (String.not_lt.mp hbehind))
        · exact hfirst field hlater

/-- In fields in strict order a reader of records finds what stands under a name. -/
theorem find?_toRawFields (h : kept.Pairwise fun a b => a.1 < b.1) (name : String) :
    Slots.find? name (toRawFields kept) = some ((kept.lookup name).map toRaw) := by
  induction kept with
  | nil => rfl
  | cons field kept ih =>
    obtain ⟨k, v⟩ := field
    obtain ⟨hfirst, hrest⟩ := List.pairwise_cons.mp h
    have hlater : k = name → kept.lookup name = none := by
      rintro rfl
      refine List.lookup_eq_none_iff.mpr fun field hfield => ?_
      exact bne_iff_ne.mpr fun hsame => String.lt_irrefl _ (hsame ▸ hfirst field hfield)
    rw [toRawFields, Slots.find?, ih hrest]
    by_cases hname : k = name
    · rw [hlater hname, lookup_cons_eq, if_pos hname.symm]
      simp [hname]
    · rw [lookup_cons_eq, if_neg (Ne.symm hname)]
      simp [hname]

/-- The fields of an object in the order of their keys. -/
def sortedFields (kept fields : List (String × Json)) : List (String × Json) :=
  fields.foldl (fun kept field => putSorted field.1 field.2 kept) kept

/-- Keeping an object orders its fields. -/
theorem sorted_eq (fields : List (String × Json)) :
    sorted fields = .object (sortedFields [] fields) := rfl

/-- Fields that are put in their places one after the other are in strict order. -/
theorem pairwise_sortedFields (fields : List (String × Json))
    (h : kept.Pairwise fun a b => a.1 < b.1) :
    (sortedFields kept fields).Pairwise fun a b => a.1 < b.1 := by
  induction fields generalizing kept with
  | nil => exact h
  | cons field fields ih => exact ih (pairwise_putSorted h)

/-- Under a name that a text sends once, what is kept is what it sends; under one that it does not
send, what there was before. -/
theorem lookup_sortedFields {depth : Nat} {sent : List (Option String × Raw)}
    {fields : List (String × Json)} (hfields : Raw.fieldValues depth sent = some fields)
    {found : Option Raw} (hfound : Slots.find? name sent = some found)
    (kept : List (String × Json)) :
    (found = none → (sortedFields kept fields).lookup name = kept.lookup name) ∧
      ∀ raw, found = some raw → ∃ value, Raw.value depth raw = some value ∧
        (sortedFields kept fields).lookup name = some value := by
  induction sent generalizing fields found kept with
  | nil =>
    cases hfields
    cases hfound
    exact ⟨fun _ => rfl, nofun⟩
  | cons first sent ih =>
    obtain ⟨sentKey, raw⟩ := first
    simp only [Raw.fieldValues, Option.bind_eq_bind, Option.bind_eq_some_iff] at hfields
    obtain ⟨key, rfl, value, hvalue, rest, hrest, hfields⟩ := hfields
    cases hfields
    simp only [Slots.find?, Option.bind_eq_bind, Option.bind_eq_some_iff] at hfound
    obtain ⟨later, hlater, hfound⟩ := hfound
    obtain ⟨hnone, hsome⟩ := ih hrest hlater (putSorted key value kept)
    by_cases hname : key = name
    · rw [if_pos (congrArg some hname)] at hfound
      cases later with
      | some other => cases hfound
      | none =>
        cases hfound
        refine ⟨nofun, ?_⟩
        rintro _ ⟨⟩
        refine ⟨value, hvalue, (hnone rfl).trans ?_⟩
        rw [lookup_putSorted, if_pos hname.symm]
    · rw [if_neg fun hsame => hname (Option.some.inj hsame)] at hfound
      cases hfound
      refine ⟨fun hunsent => (hnone hunsent).trans ?_, hsome⟩
      rw [lookup_putSorted, if_neg (Ne.symm hname)]

/-- No field nests deeper than the deepest. -/
theorem depth_le_depthOfFields (h : kept.lookup name = some value) :
    value.depth ≤ depthOfFields kept := by
  induction kept with
  | nil => cases h
  | cons field kept ih =>
    obtain ⟨k, v⟩ := field
    rw [lookup_cons_eq] at h
    rw [depthOfFields]
    split at h
    · cases h
      omega
    · have hle := ih h
      omega

end Fields

/-! ### Fields of a record -/

namespace Slots

/-- What a text sends for a field next to what is sent of it once it is kept: nothing in both, or
its value. -/
inductive Kept (depth level : Nat) : Option Raw → Option Raw → Prop
  | none : Kept depth level none none
  | some {raw : Raw} {value : Json} (hvalue : Raw.value depth raw = some value)
      (hlevel : value.depth ≤ level) : Kept depth level (some raw) (some value.toRaw)

variable {depth level : Nat} {names : List String} {slots kept : Slots}

/-- The fields at one place of a record are related if those at all places are. -/
theorem kept_get (h : List.Forall₂ (Kept depth level) slots kept) (i : Nat) :
    Kept depth level (slots.get i) (kept.get i) := by
  induction h generalizing i with
  | nil => exact .none
  | cons hfirst _ ih =>
    cases i with
    | zero => exact hfirst
    | succ i => exact ih i

/-- Every key of what was kept is a text. -/
theorem all_toRawFields (fields : List (String × Json)) :
    (toRawFields fields).all (fun field => field.1.isSome) = true := by
  induction fields with
  | nil => rfl
  | cons field fields ih => exact ih

/-- The fields of a record that is sent as an object stay what they are when it is kept. -/
theorem exists_ofFields? {sent : List (Option String × Raw)} {fields : List (String × Json)}
    (hslots : ofFields? names sent = some slots)
    (hfields : Raw.fieldValues depth sent = some fields)
    (hlevel : depthOfFields (sortedFields [] fields) ≤ level) :
    ∃ kept, ofFields? names (toRawFields (sortedFields [] fields)) = some kept ∧
      List.Forall₂ (Kept depth level) slots kept := by
  have hone {name : String} {found : Option Raw} (hfound : find? name sent = some found) :
      ∃ other, find? name (toRawFields (sortedFields [] fields)) = some other ∧
        Kept depth level found other := by
    rw [find?_toRawFields (pairwise_sortedFields fields List.Pairwise.nil)]
    obtain ⟨hnone, hsome⟩ := lookup_sortedFields hfields hfound []
    cases found with
    | none =>
      rw [hnone rfl]
      exact ⟨_, rfl, .none⟩
    | some raw =>
      obtain ⟨value, hvalue, hlookup⟩ := hsome raw rfl
      rw [hlookup]
      exact ⟨_, rfl, .some hvalue (Nat.le_trans (depth_le_depthOfFields hlookup) hlevel)⟩
  unfold ofFields? at hslots ⊢
  split at hslots
  · rw [if_pos (all_toRawFields _)]
    induction names generalizing slots with
    | nil =>
      cases hslots
      exact ⟨[], rfl, .nil⟩
    | cons name names ih =>
      simp only [List.mapM_cons, Option.bind_eq_bind, Option.pure_def, Option.bind_eq_some_iff]
        at hslots
      obtain ⟨found, hfound, others, hothers, hslots⟩ := hslots
      cases hslots
      obtain ⟨other, hother, hfirst⟩ := hone hfound
      obtain ⟨kept, hkept, hrest⟩ := ih hothers
      exact ⟨other :: kept, by simp [List.mapM_cons, hother, hkept], .cons hfirst hrest⟩
  · cases hslots

/-- Items that are sent stay what they are when they are kept. -/
theorem kept_items {sent : List Raw} {items : List Json}
    (hitems : Raw.values depth sent = some items) (hlevel : depthOfItems items ≤ level) :
    List.Forall₂ (Kept depth level) (sent.map some) ((toRaws items).map some) := by
  induction sent generalizing items with
  | nil =>
    cases hitems
    exact .nil
  | cons raw sent ih =>
    simp only [Raw.values, Option.bind_eq_bind, Option.bind_eq_some_iff] at hitems
    obtain ⟨item, hitem, items, hrest, hitems⟩ := hitems
    cases hitems
    rw [depthOfItems] at hlevel
    exact .cons (.some hitem (by omega)) (ih hrest (by omega))

/-- The fields of a record that is sent as an array stay what they are when it is kept. -/
theorem exists_ofItems? {sent : List Raw} {items : List Json}
    (hslots : ofItems? names sent = some slots) (hitems : Raw.values depth sent = some items)
    (hlevel : depthOfItems items ≤ level) :
    ∃ kept, ofItems? names (toRaws items) = some kept ∧
      List.Forall₂ (Kept depth level) slots kept := by
  have hkept := kept_items hitems hlevel
  have hlength : sent.length = (toRaws items).length := by
    simpa only [List.length_map] using hkept.length_eq
  unfold ofItems? at hslots ⊢
  rw [← hlength]
  split at hslots
  · next hfits =>
    cases hslots
    rw [if_pos hfits]
    refine ⟨_, rfl, List.rel_append hkept (List.forall₂_same.mpr fun slot hslot => ?_)⟩
    rw [List.eq_of_mem_replicate hslot]
    exact .none
  · cases hslots

end Slots

/-! ### Readers -/

namespace Reader

variable {α β : Type} {read : Reader α}

/-- Whether a reader reads what was kept of a text as it reads the text. -/
def Keeps (read : Reader α) : Prop :=
  ∀ depth raw value a, read depth raw = some a → Raw.value depth raw = some value →
    ∀ level, value.depth ≤ level → read level value.toRaw = some a

/-- Texts are read as they were kept. -/
theorem keeps_string : Keeps string := by
  intro depth raw value text hread hvalue level _
  unfold string at hread
  split at hread
  · subst hread
    cases hvalue
    rfl
  · cases hread

/-- Integers are read as they were kept. -/
theorem keeps_int (low high : Int) : Keeps (int low high) := by
  intro depth raw value n hread hvalue level _
  unfold int at hread
  split at hread
  · cases hvalue
    exact hread
  · cases hread

/-- What is made of something that is read is made of what was kept. -/
theorem Keeps.bind (h : Keeps read) (next : α → Option β) :
    Keeps fun depth raw => (read depth raw).bind next := by
  intro depth raw value b hread hvalue level hlevel
  obtain ⟨a, ha, hb⟩ := Option.bind_eq_some_iff.mp hread
  exact Option.bind_eq_some_iff.mpr ⟨a, h depth raw value a ha hvalue level hlevel, hb⟩

/-- Only null is kept as null. -/
theorem eq_null_of_value {depth : Nat} {raw : Raw} {value : Json}
    (hvalue : Raw.value depth raw = some value) (hnull : value.toRaw = .null) : raw = .null := by
  obtain rfl : value = .null := by
    cases value with
    | null => rfl
    | bool _ | number _ | string _ | array _ | object _ => cases hnull
  cases raw with
  | null => rfl
  | bool b => cases hvalue
  | number n =>
    obtain ⟨_, _, hsame⟩ := Option.map_eq_some_iff.mp hvalue
    cases hsame
  | string s =>
    obtain ⟨_, _, hsame⟩ := Option.map_eq_some_iff.mp hvalue
    cases hsame
  | array items =>
    rw [Raw.value] at hvalue
    split at hvalue
    · cases hvalue
    · obtain ⟨_, _, hsame⟩ := Option.map_eq_some_iff.mp hvalue
      cases hsame
  | object fields =>
    rw [Raw.value] at hvalue
    split at hvalue
    · cases hvalue
    · obtain ⟨_, _, hsame⟩ := Option.map_eq_some_iff.mp hvalue
      cases hsame

/-- Null stands for nothing also when it was kept. -/
theorem Keeps.nullable (h : Keeps read) : Keeps read.nullable := by
  intro depth raw value found hread hvalue level hlevel
  unfold Reader.nullable at hread
  split at hread
  · cases hread
    cases hvalue
    rfl
  · next hsome =>
    obtain ⟨a, ha, rfl⟩ := Option.map_eq_some_iff.mp hread
    have hkept := h depth raw value a ha hvalue level hlevel
    unfold Reader.nullable
    split
    · next hnull => exact absurd (eq_null_of_value hvalue hnull) hsome
    · rw [hkept]
      rfl

section Record

variable {depth level : Nat} {slots kept : Slots} {i : Nat} {a : α}

/-- A required field is read as it was kept. -/
theorem Keeps.required (h : Keeps read) (hkept : List.Forall₂ (Slots.Kept depth level) slots kept)
    (hread : slots.required i read depth = some a) : kept.required i read level = some a := by
  have hplace := Slots.kept_get hkept i
  obtain ⟨raw, hsent, hraw⟩ := Option.bind_eq_some_iff.mp hread
  rw [hsent] at hplace
  generalize hfound : kept.get i = found at hplace
  cases hplace with
  | some hvalue hlevel =>
    exact Option.bind_eq_some_iff.mpr ⟨_, hfound, h _ _ _ a hraw hvalue level hlevel⟩

/-- A field with a default is read as it was kept, or it is left out in both. -/
theorem Keeps.withDefault (h : Keeps read)
    (hkept : List.Forall₂ (Slots.Kept depth level) slots kept) {default : α}
    (hread : slots.withDefault i default read depth = some a) :
    kept.withDefault i default read level = some a := by
  have hplace := Slots.kept_get hkept i
  unfold Slots.withDefault at hread ⊢
  generalize slots.get i = sent at hread hplace
  generalize kept.get i = found at hplace ⊢
  cases hplace with
  | none => exact hread
  | some hvalue hlevel => exact h _ _ _ a hread hvalue level hlevel

end Record

/-- A record is read as it was kept if its fields are. -/
theorem Keeps.record {names : List String} {fields : Slots → (depth : Nat) → Option α}
    (h : ∀ {slots kept : Slots} {depth level : Nat} {a : α},
      List.Forall₂ (Slots.Kept depth level) slots kept → fields slots depth = some a →
        fields kept level = some a) :
    Keeps (record names fields) := by
  intro depth raw value a hread hvalue level hlevel
  unfold Reader.record at hread
  split at hread
  · cases hread
  next hdepth =>
  obtain ⟨slots, hslots, hfields⟩ := Option.bind_eq_some_iff.mp hread
  have hrecord {kept : Slots} (hlevel : level ≠ 0)
      (hkept : Slots.ofRaw? names value.toRaw = some kept)
      (hsame : List.Forall₂ (Slots.Kept (depth - 1) (level - 1)) slots kept) :
      Reader.record names fields level value.toRaw = some a := by
    rw [Reader.record, if_neg hlevel, hkept]
    exact h hsame hfields
  cases raw with
  | null | bool _ | number _ | string _ => cases hslots
  | array sent =>
    rw [Raw.value, if_neg hdepth] at hvalue
    obtain ⟨items, hitems, rfl⟩ := Option.map_eq_some_iff.mp hvalue
    rw [Json.depth] at hlevel
    obtain ⟨kept, hkept, hsame⟩ :=
      Slots.exists_ofItems? hslots hitems (show depthOfItems items ≤ level - 1 by omega)
    exact hrecord (by omega) hkept hsame
  | object sent =>
    rw [Raw.value, if_neg hdepth] at hvalue
    obtain ⟨sentFields, hsent, rfl⟩ := Option.map_eq_some_iff.mp hvalue
    rw [sorted_eq, Json.depth] at hlevel
    obtain ⟨kept, hkept, hsame⟩ := Slots.exists_ofFields? hslots hsent
      (show depthOfFields (sortedFields [] sentFields) ≤ level - 1 by omega)
    exact hrecord (by omega) hkept hsame

/-- What can be kept and is read at once is read later. -/
theorem Keeps.convert (h : Keeps read) {depth : Nat} {raw : Raw} {value : Json} {a : α}
    (hread : read depth raw = some a) (hvalue : Raw.value depth raw = some value) :
    convert? read value = some a :=
  h depth raw value a hread hvalue value.depth (Nat.le_refl _)

end Reader

end TripArchive.Json
