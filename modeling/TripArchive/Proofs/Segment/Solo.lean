import TripArchive.Proofs.Race.Handlers
import TripArchive.Proofs.Segment.Alone

/-!
# Opening a segment by itself

What looking up, opening and loading a segment comes to when nobody else is at work and any call may
fail: a value, or a failure that changes nothing. The row of an opened segment is determined by the
tables before the first call, and it is the only change to them: `Opens`.
-/

namespace TripArchive

/-- Whether a call asks to write into the tables. -/
def Call.writes : Call → Bool
  | insertSegment _ => true
  | updateSegment _ _ => true
  | upsertVehicle _ _ => true
  | _ => false

namespace Store

variable {store later : Store} {event : SegmentEvent} {row : Segment}

/-- The row that an event opens for a vehicle, with the tables as they are. -/
def opening (store : Store) (event : SegmentEvent) (vehicle : Vehicle) : Segment :=
  Processor.placed event vehicle (Placement.resolve
    ((store.prior? vehicle.token).bind Segment.endPosition) event.start.location)

/-- The tables change by one row, which an event opens for the vehicle of its device. -/
structure Opens (store : Store) (event : SegmentEvent) (row : Segment) (later : Store) : Prop where
  /-- The segment of the event is new. -/
  fresh : store.segment? event.id = none
  placed : ∃ vehicle, store.vehicle? event.deviceId = some vehicle ∧
    row = store.opening event vehicle
  added : later = { store with segments := store.segments ++ [row] }

/-- A new segment is opened for the vehicle of its device. -/
theorem opens_opening {vehicle : Vehicle} (hfresh : store.segment? event.id = none)
    (hvehicle : store.vehicle? event.deviceId = some vehicle) :
    store.Opens event (store.opening event vehicle)
      { store with segments := store.segments ++ [store.opening event vehicle] } where
  fresh := hfresh
  placed := ⟨vehicle, hvehicle, rfl⟩
  added := rfl

/-- The opened row has the identifier of the segment. -/
theorem Opens.id_eq (h : store.Opens event row later) : row.id = event.id := by
  obtain ⟨vehicle, _, rfl⟩ := h.placed
  rfl

/-- The row is opened for the vehicle that is found. -/
theorem Opens.eq_opening {vehicle : Vehicle} (h : store.Opens event row later)
    (hvehicle : store.vehicle? event.deviceId = some vehicle) :
    row = store.opening event vehicle := by
  obtain ⟨found, hfound, rfl⟩ := h.placed
  rw [hvehicle] at hfound
  cases hfound
  rfl

/-- The opened row is that of the segment. -/
theorem Opens.segment? (h : store.Opens event row later) : later.segment? event.id = some row := by
  have hfresh : store.segments.find? (fun segment => segment.id = event.id) = none := h.fresh
  rw [h.added]
  simp [Store.segment?, hfresh, h.id_eq]

/-- Opening a segment touches no other row. -/
theorem Opens.segment?_of_ne {id : String} (h : store.Opens event row later) (hid : id ≠ event.id) :
    later.segment? id = store.segment? id := by
  have hother : ¬ row.id = id := fun heq => hid (heq.symm.trans h.id_eq)
  rw [h.added]
  simp [Store.segment?, hother]

/-- A reading answers what the tables hold, or fails; it changes nothing. -/
theorem Answers.of_reading {c : Call} {answer read : c.Answer} (h : store.Answers c answer later)
    (hread : store.answer? c = some (read, store)) :
    later = store ∧ (answer = read ∨ ∃ e, c.failure? e = some answer) := by
  cases h with
  | served hserved =>
    rw [hread] at hserved
    cases hserved
    exact ⟨rfl, Or.inl rfl⟩
  | failed hfailed => exact ⟨rfl, Or.inr ⟨_, hfailed⟩⟩
  | elsewhere helsewhere =>
    rw [hread] at helsewhere
    cases helsewhere

/-- A call that is no writing leaves the tables as they are. -/
theorem Answers.unchanged {c : Call} {answer : c.Answer} (h : store.Answers c answer later)
    (hwrites : c.writes = false) : later = store := by
  cases h.tableStep with
  | recorded | inserted | closed => cases hwrites
  | kept => rfl

end Store

namespace Processor

open Handler

variable {event : SegmentEvent} {store later : Store} {trace : List Answered}

/-- A reading by itself gives what the tables hold, or fails; it changes nothing. -/
theorem ends_reading {α : Type} {c : Call} {read : c.Answer}
    {value : c.Answer → Except Store.Error α} {result : Except SegmentError α}
    (hends : (Handler.call c fun answer => ofExcept .store (value answer)).Ends Store.Answers store
      trace result later)
    (hread : store.answer? c = some (read, store))
    (hfails : ∀ e answer, c.failure? e = some answer → value answer = .error e) :
    later = store ∧ (result = (value read).mapError .store ∨ ∃ e, result = .error e) := by
  obtain ⟨answer, hanswer, _, rfl⟩ := hends.of_ask
  obtain ⟨hlater, rfl | ⟨e, hfailed⟩⟩ := hanswer.of_reading hread
  · exact ⟨hlater, Or.inl rfl⟩
  · rw [hfails e answer hfailed]
    exact ⟨hlater, Or.inr ⟨_, rfl⟩⟩

/-- Reading a segment by itself. -/
theorem ends_getSegment {id : String} {result : Except SegmentError (Option Segment)}
    (hends : (Handler.getSegment id).Ends Store.Answers store trace result later) :
    later = store ∧ (result = .ok (store.segment? id) ∨ ∃ e, result = .error e) :=
  ends_reading hends rfl fun _ _ hfailed => (Option.some.inj hfailed).symm

/-- Reading the vehicle of a device by itself. -/
theorem ends_getVehicle {device : String} {result : Except SegmentError (Option Vehicle)}
    (hends : (Handler.getVehicle device).Ends Store.Answers store trace result later) :
    later = store ∧ (result = .ok (store.vehicle? device) ∨ ∃ e, result = .error e) :=
  ends_reading hends rfl fun _ _ hfailed => (Option.some.inj hfailed).symm

/-- Reading the previous segment of a vehicle by itself. -/
theorem ends_priorSegment {token : Int} {result : Except SegmentError (Option Segment)}
    (hends : (Handler.priorSegment token).Ends Store.Answers store trace result later) :
    later = store ∧ (result = .ok (store.prior? token) ∨ ∃ e, result = .error e) :=
  ends_reading hends rfl fun _ _ hfailed => (Option.some.inj hfailed).symm

/-- Looking up where the previous segment ended leads to the placement that the tables determine. -/
theorem ends_priorEnd {vehicle : Vehicle} {start : Option Point}
    {result : Except SegmentError (Option Point)}
    (hends : (priorEnd vehicle start).Ends Store.Answers store trace result later) :
    later = store ∧ ((∃ e, result = .error e) ∨ ∃ ended, result = .ok ended ∧
      Placement.resolve ended start =
        Placement.resolve ((store.prior? vehicle.token).bind Segment.endPosition) start) := by
  cases start with
  | none =>
    cases hends
    refine ⟨rfl, Or.inr ⟨none, rfl, ?_⟩⟩
    simp only [Placement.resolve_none]
  | some start =>
    rcases Ends.of_bind hends with
      ⟨e, rfl, hread⟩ | ⟨first, second, prior, between, rfl, hread, hdone⟩
    · exact ⟨(ends_priorSegment hread).1, Or.inl ⟨e, rfl⟩⟩
    · obtain ⟨rfl, hprior | ⟨e, he⟩⟩ := ends_priorSegment hread
      · cases hdone
        cases hprior
        exact ⟨rfl, Or.inr ⟨_, rfl, rfl⟩⟩
      · cases he

/-- Adding a segment by itself adds it as a new one, or fails and changes nothing. -/
theorem ends_insertSegment {segment : Segment} {result : Except SegmentError Unit}
    (hends : (Handler.insertSegment segment).Ends Store.Answers store trace result later) :
    later = store ∧ (∃ e, result = .error e) ∨ result = .ok () ∧
      store.segment? segment.id = none ∧
      later = { store with segments := store.segments ++ [segment] } := by
  obtain ⟨answer, hanswer, _, rfl⟩ := hends.of_ask
  have hstep := hanswer.tableStep
  cases answer with
  | error e =>
    cases hstep
    exact Or.inl ⟨rfl, _, rfl⟩
  | ok value =>
    cases hstep with
    | inserted _ _ hnew => exact Or.inr ⟨rfl, hnew, rfl⟩
    | kept _ hwrites =>
      have hwritten := hwrites segment.id
      simp [Answered.writes, Answered.inserts] at hwritten

/-- Opening a segment by itself opens the row that the tables determine, or fails and changes
nothing. -/
theorem ends_openSegment {result : Except SegmentError Segment}
    (hends : (openSegment event).Ends Store.Answers store trace result later) :
    later = store ∧ (∃ e, result = .error e) ∨
      ∃ row, result = .ok row ∧ store.Opens event row later := by
  rcases Ends.of_bind hends with ⟨e, rfl, hread⟩ | ⟨_, _, found, between, rfl, hread, hfound⟩
  · exact Or.inl ⟨(ends_getVehicle hread).1, e, rfl⟩
  obtain ⟨rfl, hvehicle | ⟨e, he⟩⟩ := ends_getVehicle hread
  case inr => cases he
  cases found with
  | none =>
    cases hfound
    exact Or.inl ⟨rfl, _, rfl⟩
  | some vehicle =>
    rcases Ends.of_bind hfound with ⟨e, rfl, hprior⟩ | ⟨_, _, ended, middle, rfl, hprior, hrest⟩
    · exact Or.inl ⟨(ends_priorEnd hprior).1, e, rfl⟩
    obtain ⟨rfl, ⟨e, he⟩ | ⟨_, ⟨⟩, hplacement⟩⟩ := ends_priorEnd hprior
    · cases he
    rcases Ends.of_bind hrest with ⟨e, rfl, hinsert⟩ | ⟨_, _, _, last, rfl, hinsert, hdone⟩
    · rcases ends_insertSegment hinsert with ⟨hlater, _⟩ | ⟨hok, _⟩
      · exact Or.inl ⟨hlater, e, rfl⟩
      · cases hok
    · cases hdone
      rcases ends_insertSegment hinsert with ⟨_, e, he⟩ | ⟨_, hnew, hadded⟩
      · cases he
      · refine Or.inr ⟨_, rfl, hnew, ⟨vehicle, (Except.ok.inj hvehicle).symm, ?_⟩, hadded⟩
        rw [hplacement]
        rfl

/-- A begin event that fails by itself changes nothing. -/
theorem ends_begin {e : SegmentError}
    (hends : (begin event).Ends Store.Answers store trace (.error e) later) : later = store := by
  rcases Ends.of_bind hends with ⟨_, _, hread⟩ | ⟨_, _, existing, between, rfl, hread, hrest⟩
  · exact (ends_getSegment hread).1
  obtain ⟨rfl, _⟩ := ends_getSegment hread
  split at hrest
  · cases hrest
    rfl
  · rcases Ends.of_bind hrest with ⟨_, _, hopen⟩ | ⟨_, _, segment, last, rfl, _, hdone⟩
    · rcases ends_openSegment hopen with ⟨hlater, _⟩ | ⟨_, hok, _⟩
      · exact hlater
      · cases hok
    · cases hdone

/-- A vehicle event that fails by itself changes nothing. -/
theorem ends_vehicleEvent {event : CloudEvent MintEvent} {e : SegmentError}
    (hends : (vehicleEvent event).Ends Store.Answers store trace (.error e) later) :
    later = store := by
  unfold vehicleEvent at hends
  split at hends
  · obtain ⟨answer, hanswer, _, hresult⟩ := hends.of_ask
    have hstep := hanswer.tableStep
    cases answer with
    | ok value => cases hresult
    | error e =>
      cases hstep
      rfl
  · cases hends

/-- A handler that finds its segment missing does not find it when it looks again by itself. -/
theorem ends_reload {result : Except SegmentError Segment}
    (hends : (reload event).Ends Store.Answers store trace result later)
    (hfresh : store.segment? event.id = none) : later = store ∧ ∃ e, result = .error e := by
  rcases Ends.of_bind hends with ⟨e, rfl, hread⟩ | ⟨_, _, found, between, rfl, hread, hfound⟩
  · exact ⟨(ends_getSegment hread).1, e, rfl⟩
  · obtain ⟨rfl, hsegment | ⟨e, he⟩⟩ := ends_getSegment hread
    · rw [hfresh] at hsegment
      cases hsegment
      cases hfound
      exact ⟨rfl, _, rfl⟩
    · cases he

/-- Opening a segment that is missing by itself opens it, or fails and changes nothing: there is
nobody who could have opened it meanwhile. -/
theorem ends_openOrReload {result : Except SegmentError Segment}
    (hends : (openOrReload event).Ends Store.Answers store trace result later)
    (hfresh : store.segment? event.id = none) :
    later = store ∧ (∃ e, result = .error e) ∨
      ∃ row, result = .ok row ∧ store.Opens event row later := by
  rcases Ends.of_recover hends with ⟨row, rfl, hopen⟩ | ⟨_, _, e, between, rfl, hopen, hrecovered⟩
  · exact ends_openSegment hopen
  · rcases ends_openSegment hopen with ⟨rfl, _⟩ | ⟨_, hok, _⟩
    · split at hrecovered
      · exact Or.inl (ends_reload hrecovered hfresh)
      · cases hrecovered
        exact Or.inl ⟨rfl, _, rfl⟩
    · cases hok

/-- Loading the segment of a complete event by itself gives the open row that is there, opens it, or
fails and changes nothing. -/
theorem ends_loadOpen {result : Except SegmentError Segment}
    (hends : (loadOpen event).Ends Store.Answers store trace result later) :
    later = store ∧ (∃ e, result = .error e) ∨
      ∃ row, result = .ok row ∧ (later = store ∧ store.segment? event.id = some row ∨
        store.Opens event row later) := by
  rw [loadOpen_eq] at hends
  rcases Ends.of_bind hends with ⟨e, rfl, hread⟩ | ⟨_, _, found, between, rfl, hread, hfound⟩
  · exact Or.inl ⟨(ends_getSegment hread).1, e, rfl⟩
  obtain ⟨rfl, hsegment | ⟨e, he⟩⟩ := ends_getSegment hread
  case inr => cases he
  have hfoundEq : found = between.segment? event.id := Except.ok.inj hsegment
  rcases Ends.of_bind hfound with ⟨e, rfl, hload⟩ | ⟨_, _, row, middle, rfl, hload, hguard⟩
  · cases found with
    | some row => cases hload
    | none =>
      rcases ends_openOrReload hload hfoundEq.symm with ⟨hlater, _⟩ | ⟨_, hok, _⟩
      · exact Or.inl ⟨hlater, e, rfl⟩
      · cases hok
  · have hloaded : middle = between ∧ between.segment? event.id = some row ∨
        between.Opens event row middle := by
      cases found with
      | some found =>
        cases hload
        exact Or.inl ⟨rfl, hfoundEq.symm⟩
      | none =>
        rcases ends_openOrReload hload hfoundEq.symm with ⟨_, _, he⟩ | ⟨_, ⟨⟩, hopens⟩
        · cases he
        · exact Or.inr hopens
    split at hguard
    · next hclosed =>
      cases hguard
      rcases hloaded with ⟨rfl, _⟩ | hopens
      · exact Or.inl ⟨rfl, _, rfl⟩
      · obtain ⟨vehicle, _, rfl⟩ := hopens.placed
        cases hclosed
    · cases hguard
      exact Or.inr ⟨row, rfl, hloaded⟩

end Processor

end TripArchive
