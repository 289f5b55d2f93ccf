import Mathlib.Data.List.Nodup
import TripArchive.Proofs.Store.Row

/-!
# The two tables

`TableStep` says what one answered call does to the tables as a whole: it adds a vehicle, adds a
row, closes a row, or leaves both as they are. From it follow that the tables are kept by key
(`Keyed`) and that they only grow (`Grows`): no vehicle changes, and a row stays or is completed.
-/

namespace TripArchive.Store

variable {store between later : Store} {id : String} {row : Segment} {answered : Answered}

/-- A found row is in the table. -/
theorem mem_of_segment? (h : store.segment? id = some row) : row ∈ store.segments :=
  List.mem_of_find?_eq_some h

/-- A token is known if a vehicle has it. -/
theorem knows_iff {token : Int} :
    store.knows token = true ↔ ∃ vehicle ∈ store.vehicles, vehicle.token = token := by
  simp [knows]

/-- The token of the vehicle of a device is known. -/
theorem knows_of_vehicle? {device : String} {vehicle : Vehicle}
    (h : store.vehicle? device = some vehicle) : store.knows vehicle.token = true :=
  knows_iff.mpr ⟨vehicle, List.mem_of_find?_eq_some h, rfl⟩

/-- A segment that is there is not added again. -/
theorem insertSegment_of_segment? {segment row : Segment}
    (hknown : store.knows segment.vehicleToken = true)
    (hrow : store.segment? segment.id = some row) :
    store.insertSegment segment = .error (.duplicate (segmentName segment.id)) := by
  simp [insertSegment, hknown, hrow]

/-- What one answered call does to the tables. -/
inductive TableStep (store : Store) : Answered → Store → Prop
  /-- A vehicle with a new token and a new device is added. -/
  | recorded (device : String) (token : Int) (htoken : store.knows token = false)
      (hdevice : store.vehicle? device = none) :
      TableStep store ⟨.upsertVehicle device token, .ok ()⟩
        { store with vehicles := store.vehicles ++ [⟨token, device⟩] }
  /-- A row of a known vehicle is added under a new identifier. -/
  | inserted (segment : Segment) (hknown : store.knows segment.vehicleToken = true)
      (hnew : store.segment? segment.id = none) :
      TableStep store ⟨.insertSegment segment, .ok ()⟩
        { store with segments := store.segments ++ [segment] }
  /-- An open row gets its completion. -/
  | closed (id : String) (row : Segment) (completion : Completion)
      (hrow : store.segment? id = some row) (hopen : row.isClosed = false) :
      TableStep store ⟨.updateSegment id completion, .ok ()⟩
        { store with segments := store.segments.map fun other =>
            if other.id = id then other.complete completion else other }
  /-- Nothing is written. -/
  | kept (answered : Answered) (hwrites : ∀ id, answered.writes id = false) :
      TableStep store answered store

/-- Every answered call takes the tables one step. -/
theorem Answers.tableStep {c : Call} {answer : c.Answer} (h : store.Answers c answer later) :
    TableStep store ⟨c, answer⟩ later := by
  cases h with
  | failed h => cases c <;> cases h <;> exact .kept _ fun _ => rfl
  | elsewhere h =>
    cases c with
    | generateKey | generateNonce | fetch | upload => exact .kept _ fun _ => rfl
    | _ => cases h
  | served h =>
    cases c with
    | getSegment | getVehicle | priorSegment => cases h; exact .kept _ fun _ => rfl
    | generateKey | generateNonce | fetch | upload => cases h
    | insertSegment segment =>
      simp only [answer?, insertSegment, Option.some.injEq] at h
      split at h
      · cases h
        exact .kept _ fun _ => rfl
      · split at h
        · cases h
          exact .kept _ fun _ => rfl
        · next hknown hnew =>
          cases h
          exact .inserted segment (by simpa using hknown) (by simpa using hnew)
    | updateSegment closed completion =>
      simp only [answer?, closeSegment, Option.some.injEq] at h
      split at h
      · cases h
        exact .kept _ fun _ => rfl
      · next row hrow =>
        split at h
        · cases h
          exact .kept _ fun _ => rfl
        · next hopen =>
          cases h
          exact .closed closed row completion hrow (by simpa using hopen)
    | upsertVehicle device token =>
      simp only [answer?, upsertVehicle, Option.some.injEq] at h
      split at h
      · cases h
        exact .kept _ fun _ => rfl
      · split at h
        · cases h
          exact .kept _ fun _ => rfl
        · next htoken hdevice =>
          cases h
          exact .recorded device token (by simpa using htoken) (by simpa using hdevice)

/-- The tables are kept by key: no two rows have one identifier, no two vehicles have one token or
one device, and every row is of a known vehicle. -/
structure Keyed (store : Store) : Prop where
  ids : (store.segments.map Segment.id).Nodup
  tokens : (store.vehicles.map Vehicle.token).Nodup
  devices : (store.vehicles.map Vehicle.device).Nodup
  known : ∀ row ∈ store.segments, store.knows row.vehicleToken = true

/-- Empty tables are kept by key. -/
theorem keyed_empty : Keyed empty where
  ids := List.nodup_nil
  tokens := List.nodup_nil
  devices := List.nodup_nil
  known := by simp [empty]

/-- Completing rows changes no identifier and no token. -/
theorem map_complete_congr {α : Type} (rows : List Segment) (id : String) (completion : Completion)
    (f : Segment → α) (hf : ∀ row : Segment, f (row.complete completion) = f row) :
    (rows.map fun other => if other.id = id then other.complete completion else other).map f =
      rows.map f := by
  rw [List.map_map]
  apply List.map_congr_left
  intro other _
  by_cases hid : other.id = id
  · simp [hid, hf]
  · simp [hid]

/-- A step keeps the tables kept by key. -/
theorem TableStep.keyed (h : TableStep store answered later) (hkeyed : store.Keyed) :
    later.Keyed := by
  cases h with
  | kept => exact hkeyed
  | recorded device token htoken hdevice =>
    have hnewToken : token ∉ store.vehicles.map Vehicle.token := by
      intro hmem
      obtain ⟨vehicle, hvehicle, rfl⟩ := List.mem_map.mp hmem
      have hknown := knows_iff.mpr ⟨vehicle, hvehicle, rfl⟩
      rw [htoken] at hknown
      cases hknown
    have hnewDevice : device ∉ store.vehicles.map Vehicle.device := by
      intro hmem
      obtain ⟨vehicle, hvehicle, rfl⟩ := List.mem_map.mp hmem
      have hnone := List.find?_eq_none.mp hdevice vehicle hvehicle
      simp at hnone
    constructor
    · exact hkeyed.ids
    · rw [List.map_append]
      exact List.concat_eq_append ▸ hkeyed.tokens.concat hnewToken
    · rw [List.map_append]
      exact List.concat_eq_append ▸ hkeyed.devices.concat hnewDevice
    · intro row hmem
      obtain ⟨vehicle, hvehicle, htokenEq⟩ := knows_iff.mp (hkeyed.known row hmem)
      exact knows_iff.mpr ⟨vehicle, List.mem_append_left _ hvehicle, htokenEq⟩
  | inserted segment hknown hnew =>
    have hnewId : segment.id ∉ store.segments.map Segment.id := by
      intro hmem
      obtain ⟨row, hrow, hid⟩ := List.mem_map.mp hmem
      have hnone := List.find?_eq_none.mp hnew row hrow
      simp [hid] at hnone
    constructor
    · rw [List.map_append]
      exact List.concat_eq_append ▸ hkeyed.ids.concat hnewId
    · exact hkeyed.tokens
    · exact hkeyed.devices
    · intro row hmem
      rcases List.mem_append.mp hmem with hold | hnew
      · exact hkeyed.known row hold
      · rw [List.mem_singleton.mp hnew]
        exact hknown
  | closed id row completion hrow hopen =>
    constructor
    · rw [map_complete_congr _ _ _ _ fun _ => rfl]
      exact hkeyed.ids
    · exact hkeyed.tokens
    · exact hkeyed.devices
    · intro other hmem
      have htoken := List.mem_map_of_mem (f := Segment.vehicleToken) hmem
      rw [map_complete_congr _ _ _ _ fun _ => rfl] at htoken
      obtain ⟨before, hbefore, htokenEq⟩ := List.mem_map.mp htoken
      rw [← htokenEq]
      exact hkeyed.known before hbefore

/-- In a list whose keys do not repeat, each element is the first with its key. -/
theorem find?_eq_some_of_nodup {α κ : Type} [DecidableEq κ] {key : α → κ} {l : List α} {a : α}
    (h : (l.map key).Nodup) (hmem : a ∈ l) : (l.find? fun other => key other = key a) = some a := by
  induction l with
  | nil => cases hmem
  | cons first l ih =>
    rw [List.map_cons, List.nodup_cons] at h
    rw [List.find?_cons]
    rcases List.mem_cons.mp hmem with rfl | hrest
    · simp
    · have hother : ¬ key first = key a := by
        intro hkey
        exact h.1 (hkey ▸ List.mem_map_of_mem hrest)
      simp only [hother, decide_false]
      exact ih h.2 hrest

/-- In a list whose keys do not repeat, each element is the only one with its key. -/
theorem filter_eq_singleton_of_nodup {α κ : Type} [DecidableEq κ] {key : α → κ} {l : List α} {a : α}
    (h : (l.map key).Nodup) (hmem : a ∈ l) : (l.filter fun other => key other = key a) = [a] := by
  induction l with
  | nil => cases hmem
  | cons first l ih =>
    rw [List.map_cons, List.nodup_cons] at h
    rw [List.filter_cons]
    rcases List.mem_cons.mp hmem with rfl | hrest
    · have hothers : ∀ other ∈ l, ¬ key other = key a := by
        intro other hother hkey
        exact h.1 (hkey ▸ List.mem_map_of_mem hother)
      simpa using hothers
    · have hother : ¬ key first = key a := by
        intro hkey
        exact h.1 (hkey ▸ List.mem_map_of_mem hrest)
      simp only [hother, decide_false]
      exact ih h.2 hrest

/-- The rows under an identifier. -/
def rows (store : Store) (id : String) : List Segment :=
  store.segments.filter fun segment => segment.id = id

/-- In tables kept by key a row is the only one under its identifier. -/
theorem Keyed.rows_eq (h : store.Keyed) (hrow : store.segment? id = some row) :
    store.rows id = [row] := by
  obtain rfl := id_of_segment? hrow
  exact filter_eq_singleton_of_nodup h.ids (mem_of_segment? hrow)

/-- In tables kept by key every row is the one under its identifier. -/
theorem Keyed.segment?_of_mem (h : store.Keyed) (hmem : row ∈ store.segments) :
    store.segment? row.id = some row := find?_eq_some_of_nodup h.ids hmem

/-- In tables kept by key every vehicle is the one of its device. -/
theorem Keyed.vehicle?_of_mem (h : store.Keyed) {vehicle : Vehicle}
    (hmem : vehicle ∈ store.vehicles) : store.vehicle? vehicle.device = some vehicle :=
  find?_eq_some_of_nodup h.devices hmem

/-- What may become of the tables: no vehicle is changed or removed, and a row stays or is
completed. -/
structure Grows (store later : Store) : Prop where
  vehicles : store.vehicles <+: later.vehicles
  rows : ∀ (id : String) (row : Segment), store.segment? id = some row →
    ∃ next, later.segment? id = some next ∧ row.Becomes next

theorem Grows.refl (store : Store) : store.Grows store where
  vehicles := List.prefix_rfl
  rows := fun _ row hrow => ⟨row, hrow, .refl row⟩

theorem Grows.trans (hfirst : store.Grows between) (hsecond : between.Grows later) :
    store.Grows later where
  vehicles := hfirst.vehicles.trans hsecond.vehicles
  rows := by
    intro id row hrow
    obtain ⟨next, hnext, hbecomes⟩ := hfirst.rows id row hrow
    obtain ⟨last, hlast, hlater⟩ := hsecond.rows id next hnext
    exact ⟨last, hlast, hbecomes.trans hlater⟩

/-- The tables only grow. -/
theorem Answers.grows {c : Call} {answer : c.Answer} (h : store.Answers c answer later) :
    store.Grows later := by
  constructor
  · cases h.tableStep with
    | recorded => exact List.prefix_append _ _
    | inserted | closed | kept => exact List.prefix_rfl
  · intro id row hrow
    have hstep := h.rowStep id
    rw [hrow] at hstep
    exact hstep.becomes

end TripArchive.Store
