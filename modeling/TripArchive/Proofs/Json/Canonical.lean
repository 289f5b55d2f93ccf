import TripArchive.Json.Record

/-!
# Values as they are kept

A value that a program keeps has the fields of every object in the strict order of their keys.
Read as a text says it, such a value is read back, however deep it nests (`value_toRaw`), and so are
the fields of a record in it.
-/

namespace TripArchive.Json

mutual

/-- The keys of every object in a value are in strict order. -/
def Canonical : Json → Prop
  | .null => True
  | .bool _ => True
  | .number _ => True
  | .string _ => True
  | .array items => CanonicalItems items
  | .object fields => fields.Pairwise (fun a b => a.1 < b.1) ∧ CanonicalFields fields

/-- Every item is canonical. -/
def CanonicalItems : List Json → Prop
  | [] => True
  | item :: items => Canonical item ∧ CanonicalItems items

/-- The value of every field is canonical. -/
def CanonicalFields : List (String × Json) → Prop
  | [] => True
  | (_, value) :: fields => Canonical value ∧ CanonicalFields fields

end

/-- A field whose key comes after all others is put behind them. -/
theorem putSorted_append {key : String} {value : Json} {kept : List (String × Json)}
    (h : ∀ field ∈ kept, field.1 < key) : putSorted key value kept = kept ++ [(key, value)] := by
  induction kept with
  | nil => rfl
  | cons field kept ih =>
    obtain ⟨hfield, hkept⟩ := List.forall_mem_cons.mp h
    have hne : key ≠ field.1 := fun heq => String.lt_irrefl key (heq ▸ hfield)
    have hnot : ¬ key < field.1 := String.lt_asymm hfield
    rw [putSorted, if_neg hne, if_neg hnot, ih hkept]
    rfl

/-- Fields in strict order stay as they are. -/
theorem sorted_of_pairwise {fields : List (String × Json)}
    (h : fields.Pairwise fun a b => a.1 < b.1) : sorted fields = .object fields := by
  suffices hfold : ∀ kept : List (String × Json), (kept ++ fields).Pairwise (fun a b => a.1 < b.1) →
      fields.foldl (fun kept field => putSorted field.1 field.2 kept) kept = kept ++ fields from
    congrArg Json.object (hfold [] h)
  clear h
  induction fields with
  | nil => simp
  | cons field fields ih =>
    intro kept hordered
    have hbefore : ∀ earlier ∈ kept, earlier.1 < field.1 := fun earlier hmem =>
      (List.pairwise_append.mp hordered).2.2 earlier hmem field List.mem_cons_self
    rw [List.append_cons] at hordered
    rw [List.foldl_cons, putSorted_append hbefore, ih _ hordered, List.append_assoc]
    rfl

mutual

/-- A canonical value is read back. -/
theorem value_toRaw (value : Json) {depth : Nat} (hvalue : value.Canonical)
    (hdepth : value.depth ≤ depth) : Raw.value depth value.toRaw = some value := by
  cases value with
  | null => rfl
  | bool b => rfl
  | number n => rfl
  | string s => rfl
  | array items =>
    rw [Json.depth] at hdepth
    have hitems : Raw.values (depth - 1) (toRaws items) = some items :=
      values_toRaws items hvalue (by omega)
    have hsome : ¬ depth = 0 := by omega
    rw [toRaw, Raw.value, if_neg hsome, hitems]
    rfl
  | object fields =>
    rw [Json.depth] at hdepth
    obtain ⟨hordered, hfields⟩ := hvalue
    have hread : Raw.fieldValues (depth - 1) (toRawFields fields) = some fields :=
      fieldValues_toRawFields fields hfields (by omega)
    have hsome : ¬ depth = 0 := by omega
    rw [toRaw, Raw.value, if_neg hsome, hread, Option.map_some, sorted_of_pairwise hordered]

/-- Canonical items are read back. -/
theorem values_toRaws (items : List Json) {depth : Nat} (hitems : CanonicalItems items)
    (hdepth : depthOfItems items ≤ depth) : Raw.values depth (toRaws items) = some items := by
  cases items with
  | nil => rfl
  | cons item items =>
    rw [depthOfItems] at hdepth
    have hfirst : Raw.value depth item.toRaw = some item := value_toRaw item hitems.1 (by omega)
    have hrest : Raw.values depth (toRaws items) = some items :=
      values_toRaws items hitems.2 (by omega)
    rw [toRaws, Raw.values, hfirst, hrest]
    rfl

/-- Canonical fields are read back. -/
theorem fieldValues_toRawFields (fields : List (String × Json)) {depth : Nat}
    (hfields : CanonicalFields fields) (hdepth : depthOfFields fields ≤ depth) :
    Raw.fieldValues depth (toRawFields fields) = some fields := by
  cases fields with
  | nil => rfl
  | cons field fields =>
    obtain ⟨key, value⟩ := field
    rw [depthOfFields] at hdepth
    have hfirst : Raw.value depth value.toRaw = some value := value_toRaw value hfields.1 (by omega)
    have hrest : Raw.fieldValues depth (toRawFields fields) = some fields :=
      fieldValues_toRawFields fields hfields.2 (by omega)
    rw [toRawFields, Raw.fieldValues, hfirst, hrest]
    rfl

end

/-- Each of some canonical items is canonical. -/
theorem CanonicalItems.of_mem {item : Json} {items : List Json} (h : CanonicalItems items)
    (hmem : item ∈ items) : item.Canonical := by
  induction items with
  | nil => cases hmem
  | cons first items ih =>
    rcases List.mem_cons.mp hmem with rfl | hlater
    · exact h.1
    · exact ih h.2 hlater

/-- No item nests deeper than the deepest. -/
theorem depth_le_depthOfItems {item : Json} {items : List Json} (hmem : item ∈ items) :
    item.depth ≤ depthOfItems items := by
  induction items with
  | nil => cases hmem
  | cons first items ih =>
    rw [depthOfItems]
    rcases List.mem_cons.mp hmem with rfl | hlater
    · omega
    · have hle := ih hlater
      omega

/-- A list is read back if each of its items is, one level of nesting down. -/
theorem list_toRaw {α : Type} {read : Reader α} {write : α → Json} {items : List α} {depth : Nat}
    (h : ∀ item ∈ items, read depth (write item).toRaw = some item) :
    Reader.list read (depth + 1) (Json.array (items.map write)).toRaw = some items := by
  have hall : (toRaws (items.map write)).mapM (read depth) = some items := by
    induction items with
    | nil => rfl
    | cons item items ih =>
      obtain ⟨hfirst, hrest⟩ := List.forall_mem_cons.mp h
      rw [List.map_cons, toRaws, List.mapM_cons, hfirst, ih hrest]
      rfl
  have hsome : ¬ depth + 1 = 0 := by omega
  rw [toRaw, Reader.list, if_neg hsome]
  exact hall

end TripArchive.Json
