import TripArchive.Json.Raw
import TripArchive.Proofs.Json.Numbers
import TripArchive.Proofs.Json.Strings

/-!
# Written values are read back

The compact text of a value says that value (`parse?_text`), as long as its integers have sixty-four
bits and its doubles are read back from their own texts. After every value stands a comma, a closing
bracket or nothing, none of which goes on with a number.
-/

namespace TripArchive.Json

open Raw

/-- Whether a number is read back from its text. -/
def Number.Legible : Number → Prop
  | int n => InRange n
  | double x => ReadsBack x

mutual

/-- Every number in a value is read back from its text. -/
def Legible : Json → Prop
  | .null => True
  | .bool _ => True
  | .number n => n.Legible
  | .string _ => True
  | .array items => LegibleItems items
  | .object fields => LegibleFields fields

/-- Every number in some items is read back from its text. -/
def LegibleItems : List Json → Prop
  | [] => True
  | item :: items => Legible item ∧ LegibleItems items

/-- Every number in some fields is read back from its text. -/
def LegibleFields : List (String × Json) → Prop
  | [] => True
  | (_, value) :: fields => Legible value ∧ LegibleFields fields

end

namespace Raw

variable {fuel : Nat} {bytes rest : Bytes}

/-- A byte that is expected is read. -/
theorem byte?_cons {b : UInt8} (h : isSpace b = false) : byte? b (b :: rest) = some rest := by
  simp [byte?, skipSpace, h]

/-- Another byte than the one that is expected is not read. -/
theorem byte?_cons_of_ne {b c : UInt8} (h : isSpace c = false) (hne : c ≠ b) :
    byte? b (c :: rest) = none := by
  simp [byte?, skipSpace, h, hne]

/-- A value does not begin with a closing bracket. -/
theorem byte?_of_value? {found : Raw × Bytes} (h : value? fuel bytes = some found) :
    byte? 0x5d bytes = none := by
  cases fuel with
  | zero => cases h
  | succ fuel =>
    unfold byte?
    unfold value? at h
    split
    · next b tail hskip =>
      split
      · next hb =>
        subst hb
        rw [hskip] at h
        cases h
      · rfl
    · rfl

/-- A number that is read back is the value that is read. -/
theorem value?_number {n : Number} (h : n.Legible) (hrest : EndsNumber rest) :
    value? (fuel + 1) (Utf8.ofChars n.write ++ rest) = some (.number (some n), rest) := by
  have hread : number? (Utf8.ofChars n.write) = some (.number (some n), []) := by
    cases n with
    | int n => exact number?_int h
    | double x => exact number?_double h
  exact value?_of_number? (number?_local.append hread hrest)

/-- A comma or a closing bracket ends a number. -/
theorem endsNumber_cons {b : UInt8} (h : b = 0x2c ∨ b = 0x5d ∨ b = 0x7d) :
    EndsNumber (b :: rest) := by
  rintro _ ⟨⟩
  rcases h with rfl | rfl | rfl
  · decide
  · decide
  · decide

/-- After an item stands a comma or the end of its array. -/
theorem endsNumber_writeItems (items : List Json) (rest : Bytes) :
    EndsNumber (Utf8.ofChars (writeItems items) ++ rest) := by
  cases items with
  | nil => exact endsNumber_cons (.inr (.inl rfl))
  | cons item items => exact endsNumber_cons (.inl rfl)

/-- After a field stands a comma or the end of its object. -/
theorem endsNumber_writeFields (fields : List (String × Json)) (rest : Bytes) :
    EndsNumber (Utf8.ofChars (writeFields fields) ++ rest) := by
  cases fields with
  | nil => exact endsNumber_cons (.inr (.inr rfl))
  | cons field fields => exact endsNumber_cons (.inl rfl)

/-- An array is read if its first item and the others are. -/
theorem value?_array {middle : Bytes} {item : Raw} {items : List Raw}
    (hitem : value? fuel bytes = some (item, middle))
    (hitems : items? fuel middle = some (items, rest)) :
    value? (fuel + 1) (0x5b :: bytes) = some (.array (item :: items), rest) := by
  have hskip : skipSpace (0x5b :: bytes) = 0x5b :: bytes := rfl
  unfold value?
  rw [hskip]
  simp only [byte?_of_value? hitem, Option.bind_eq_bind, hitem, Option.bind_some, hitems]

/-- Items are read if the next one and the others are. -/
theorem items?_cons {middle : Bytes} {item : Raw} {items : List Raw}
    (hitem : value? fuel bytes = some (item, middle))
    (hitems : items? fuel middle = some (items, rest)) :
    items? (fuel + 1) (0x2c :: bytes) = some (item :: items, rest) := by
  have hcomma : byte? 0x2c (0x2c :: bytes) = some bytes := byte?_cons (by decide)
  have hmore : byte? 0x5d (0x2c :: bytes) = none := byte?_cons_of_ne (by decide) (by decide)
  unfold items?
  simp only [hmore, Option.bind_eq_bind, hcomma, Option.bind_some, hitem, hitems]

/-- An object is read if its first field and the others are. -/
theorem value?_object {middle : Bytes} {field : Option String × Raw}
    {fields : List (Option String × Raw)} (hquote : byte? 0x7d bytes = none)
    (hfield : field? fuel bytes = some (field, middle))
    (hfields : fields? fuel middle = some (fields, rest)) :
    value? (fuel + 1) (0x7b :: bytes) = some (.object (field :: fields), rest) := by
  have hskip : skipSpace (0x7b :: bytes) = 0x7b :: bytes := rfl
  unfold value?
  rw [hskip]
  simp only [hquote, Option.bind_eq_bind, hfield, Option.bind_some, hfields]

/-- Fields are read if the next one and the others are. -/
theorem fields?_cons {middle : Bytes} {field : Option String × Raw}
    {fields : List (Option String × Raw)} (hfield : field? fuel bytes = some (field, middle))
    (hfields : fields? fuel middle = some (fields, rest)) :
    fields? (fuel + 1) (0x2c :: bytes) = some (field :: fields, rest) := by
  have hcomma : byte? 0x2c (0x2c :: bytes) = some bytes := byte?_cons (by decide)
  have hmore : byte? 0x7d (0x2c :: bytes) = none := byte?_cons_of_ne (by decide) (by decide)
  unfold fields?
  simp only [hmore, Option.bind_eq_bind, hcomma, Option.bind_some, hfield, hfields]

/-- A field with a value that is read is read. -/
theorem field?_write {key : String} {value : Raw} (h : value? fuel bytes = some (value, rest)) :
    field? (fuel + 1) (Utf8.ofChars (writeString key) ++ 0x3a :: bytes) =
      some ((some key, value), rest) := by
  have hquote : byte? 0x22 (Utf8.ofChars (writeString key) ++ 0x3a :: bytes) =
      some (Utf8.ofChars (key.toList.flatMap escapeChar ++ ['"']) ++ 0x3a :: bytes) :=
    byte?_cons (by decide)
  have hcolon : byte? 0x3a (0x3a :: bytes) = some bytes := byte?_cons (by decide)
  unfold field?
  simp only [hquote, Option.bind_eq_bind, Option.bind_some, string?_writeString, hcolon, h]

/-- The items of an array after the first end at least in a bracket. -/
theorem length_writeItems_pos (items : List Json) :
    0 < (Utf8.ofChars (writeItems items)).length := by
  cases items with
  | nil => exact Nat.succ_pos _
  | cons item items => exact Nat.succ_pos _

/-- The fields of an object after the first end at least in a brace. -/
theorem length_writeFields_pos (fields : List (String × Json)) :
    0 < (Utf8.ofChars (writeFields fields)).length := by
  cases fields with
  | nil => exact Nat.succ_pos _
  | cons field fields => exact Nat.succ_pos _

/-- The bytes of a field and of those after it. -/
theorem ofChars_field (key : String) (value : Json) (fields : List (String × Json)) :
    Utf8.ofChars (writeString key ++ ':' :: (value.write ++ writeFields fields)) =
      Utf8.ofChars (writeString key) ++
        0x3a :: (Utf8.ofChars value.write ++ Utf8.ofChars (writeFields fields)) := by
  rw [Utf8.ofChars_append, ← Utf8.ofChars_append value.write]
  rfl

mutual

/-- A value is read back from its text, whatever follows that does not go on with a number. -/
theorem value?_write (value : Json) (fuel : Nat) (rest : Bytes) (hvalue : value.Legible)
    (hfuel : (Utf8.ofChars value.write).length ≤ fuel + 1) (hrest : EndsNumber rest) :
    value? (fuel + 1) (Utf8.ofChars value.write ++ rest) = some (value.toRaw, rest) := by
  cases value with
  | null => rfl
  | bool b =>
    cases b with
    | true => rfl
    | false => rfl
  | number n => exact value?_number hvalue hrest
  | string s =>
    show (string? (Utf8.ofChars (s.toList.flatMap escapeChar ++ ['"']) ++ rest)).map
      (fun found => (Raw.string found.1, found.2)) = _
    rw [string?_writeString]
    rfl
  | array items =>
    cases items with
    | nil => rfl
    | cons item items =>
      have hbytes : Utf8.ofChars (Json.array (item :: items)).write =
          0x5b :: (Utf8.ofChars item.write ++ Utf8.ofChars (writeItems items)) := by
        rw [← Utf8.ofChars_append]
        rfl
      have hsome := length_writeItems_pos items
      rw [hbytes, List.length_cons, List.length_append] at hfuel
      obtain ⟨below, rfl⟩ : ∃ below, fuel = below + 1 := ⟨fuel - 1, by omega⟩
      have hitem := value?_write item below _ hvalue.1 (by omega) (endsNumber_writeItems items rest)
      rw [hbytes, List.cons_append, List.append_assoc]
      exact value?_array hitem (items?_write items below rest hvalue.2 (by omega))
  | object fields =>
    cases fields with
    | nil => rfl
    | cons field fields =>
      obtain ⟨key, value⟩ := field
      have hbytes : Utf8.ofChars (Json.object ((key, value) :: fields)).write =
          0x7b :: (Utf8.ofChars (writeString key) ++
            0x3a :: (Utf8.ofChars value.write ++ Utf8.ofChars (writeFields fields))) := by
        rw [← ofChars_field]
        rfl
      have hsome := length_writeFields_pos fields
      rw [hbytes, List.length_cons, List.length_append, List.length_cons, List.length_append]
        at hfuel
      obtain ⟨below, rfl⟩ : ∃ below, fuel = below + 2 := ⟨fuel - 2, by omega⟩
      have hread := value?_write value below _ hvalue.1 (by omega)
        (endsNumber_writeFields fields rest)
      rw [hbytes, List.cons_append, List.append_assoc, List.cons_append, List.append_assoc]
      exact value?_object (byte?_cons_of_ne (by decide) (by decide)) (field?_write hread)
        (fields?_write fields (below + 1) rest hvalue.2 (by omega))

/-- Items are read back. -/
theorem items?_write (items : List Json) (fuel : Nat) (rest : Bytes) (hitems : LegibleItems items)
    (hfuel : (Utf8.ofChars (writeItems items)).length ≤ fuel + 1) :
    items? (fuel + 1) (Utf8.ofChars (writeItems items) ++ rest) = some (toRaws items, rest) := by
  cases items with
  | nil => rfl
  | cons item items =>
    have hbytes : Utf8.ofChars (writeItems (item :: items)) =
        0x2c :: (Utf8.ofChars item.write ++ Utf8.ofChars (writeItems items)) := by
      rw [← Utf8.ofChars_append]
      rfl
    have hsome := length_writeItems_pos items
    rw [hbytes, List.length_cons, List.length_append] at hfuel
    obtain ⟨below, rfl⟩ : ∃ below, fuel = below + 1 := ⟨fuel - 1, by omega⟩
    have hitem := value?_write item below _ hitems.1 (by omega) (endsNumber_writeItems items rest)
    rw [hbytes, List.cons_append, List.append_assoc]
    exact items?_cons hitem (items?_write items below rest hitems.2 (by omega))

/-- Fields are read back. -/
theorem fields?_write (fields : List (String × Json)) (fuel : Nat) (rest : Bytes)
    (hfields : LegibleFields fields)
    (hfuel : (Utf8.ofChars (writeFields fields)).length ≤ fuel + 1) :
    fields? (fuel + 1) (Utf8.ofChars (writeFields fields) ++ rest) =
      some (toRawFields fields, rest) := by
  cases fields with
  | nil => rfl
  | cons field fields =>
    obtain ⟨key, value⟩ := field
    have hbytes : Utf8.ofChars (writeFields ((key, value) :: fields)) =
        0x2c :: (Utf8.ofChars (writeString key) ++
          0x3a :: (Utf8.ofChars value.write ++ Utf8.ofChars (writeFields fields))) := by
      rw [← ofChars_field]
      rfl
    have hsome := length_writeFields_pos fields
    rw [hbytes, List.length_cons, List.length_append, List.length_cons, List.length_append] at hfuel
    obtain ⟨below, rfl⟩ : ∃ below, fuel = below + 2 := ⟨fuel - 2, by omega⟩
    have hread := value?_write value below _ hfields.1 (by omega)
      (endsNumber_writeFields fields rest)
    rw [hbytes, List.cons_append, List.append_assoc, List.cons_append, List.append_assoc]
    exact fields?_cons (field?_write hread)
      (fields?_write fields (below + 1) rest hfields.2 (by omega))

end

/-- A text says the value that was written. -/
theorem parse?_text {value : Json} (h : value.Legible) :
    Raw.parse? (Utf8.encode value.text) = some value.toRaw := by
  have hread := value?_write value (Utf8.ofChars value.write).length [] h (Nat.le_succ _) nofun
  rw [List.append_nil] at hread
  unfold Json.text
  rw [Utf8.encode_ofList, Raw.parse?, hread]
  rfl

end Raw

end TripArchive.Json
