import TripArchive.Proofs.Segment.Placement

/-!
# The course of an event

With fixed outcomes of the other collaborators the tables determine what becomes of a begin event
(`run_begin`) and of a complete event (`run_complete`): which row is opened or loaded, which
estimate a late start gets, and what archiving gives.
-/

namespace TripArchive

namespace Store

variable {store later : Store} {loaded row : Segment} {event : SegmentEvent}

/-- A loaded segment with the estimate that a late report of its start allows. -/
def placedLate (store : Store) (loaded : Segment) (start : Option Point) : Segment :=
  match start with
  | none => loaded
  | some start =>
    if loaded.startUnknown then
      match lateEstimate (store.prior? loaded.vehicleToken) start with
      | none => loaded
      | some estimate => { loaded with startEstimate := some estimate, droppedData := true }
    else loaded

/-- A late estimate changes nothing else of a segment. -/
theorem placedLate_eq (store : Store) (loaded : Segment) (start : Option Point) :
    store.placedLate loaded start = { loaded with
      startEstimate := (store.placedLate loaded start).startEstimate
      droppedData := (store.placedLate loaded start).droppedData } := by
  unfold placedLate
  split
  · rfl
  · split
    · split <;> rfl
    · rfl

/-- The tables with a row completed. -/
def completing (store : Store) (id : String) (completion : Completion) : Store :=
  { store with segments := store.segments.map fun other =>
      if other.id = id then other.complete completion else other }

/-- An open row is completed, and no other. -/
theorem closeSegment_eq (hrow : store.segment? row.id = some row) (hopen : row.isClosed = false)
    (completion : Completion) :
    store.closeSegment row.id completion = .ok (store.completing row.id completion) := by
  simp [closeSegment, hrow, hopen, completing]

/-- The row that an event opens for the vehicle of its device, and the tables with it. -/
def openNew (store : Store) (event : SegmentEvent) : Except SegmentError (Segment × Store) :=
  match store.vehicle? event.deviceId with
  | none => .error (.vehicleNotFound event.deviceId)
  | some vehicle =>
    if (store.segment? event.id).isSome then .error (.store (.duplicate (segmentName event.id)))
    else .ok (store.opening event vehicle,
      { store with segments := store.segments ++ [store.opening event vehicle] })

/-- The segment that a complete event loads, and the tables once it has: the row that is there, or
the one that the event opens. -/
def load (store : Store) (event : SegmentEvent) : Except SegmentError (Segment × Store) :=
  match store.segment? event.id with
  | some row => if row.isClosed then .error (.alreadyClosed event.id) else .ok (row, store)
  | none => store.openNew event

/-- What an event opens is a new row. -/
theorem opens_of_openNew {row : Segment} (h : store.openNew event = .ok (row, later)) :
    store.Opens event row later := by
  unfold openNew at h
  split at h
  · cases h
  · next vehicle hvehicle =>
    split at h
    · cases h
    · next hfresh =>
      cases h
      exact opens_opening (by simpa using hfresh) hvehicle

/-- A completed row is found as such. -/
theorem segment?_completing {id : String} (hrow : store.segment? id = some row)
    (hopen : row.isClosed = false) (completion : Completion) :
    (store.completing id completion).segment? id = some (row.complete completion) := by
  obtain rfl := id_of_segment? hrow
  obtain ⟨current, hcurrent, _, hlater⟩ :=
    segment?_of_closeSegment (closeSegment_eq hrow hopen completion) row.id
  rw [hrow] at hcurrent
  cases hcurrent
  rw [hlater, if_pos rfl]

/-- A segment is loaded unless it is closed, or it is new and its device has no vehicle. -/
theorem exists_load_iff : (∃ loaded between, store.load event = .ok (loaded, between)) ↔
    (∀ row, store.segment? event.id = some row → row.isClosed = false) ∧
      (store.segment? event.id ≠ none ∨ store.vehicle? event.deviceId ≠ none) := by
  unfold load
  cases hrow : store.segment? event.id with
  | some row => cases hclosed : row.isClosed <;> simp [hclosed]
  | none => cases hvehicle : store.vehicle? event.deviceId <;> simp [openNew, hrow, hvehicle]

/-- What is loaded is the open row of the segment. -/
structure Loads (store : Store) (event : SegmentEvent) (loaded : Segment) (between : Store) :
    Prop where
  id : loaded.id = event.id
  row : between.segment? loaded.id = some loaded
  isOpen : loaded.isClosed = false
  /-- It was there already, or the event opened it. -/
  found : between = store ∧ store.segment? event.id = some loaded ∨
    store.Opens event loaded between

/-- Loading a segment gives its open row. -/
theorem loads_of_load {between : Store} (h : store.load event = .ok (loaded, between)) :
    store.Loads event loaded between := by
  unfold load at h
  split at h
  · next row hrow =>
    split at h
    · cases h
    · next hopen =>
      cases h
      have hid := id_of_segment? hrow
      exact ⟨hid, hid ▸ hrow, by simpa using hopen, Or.inl ⟨rfl, hrow⟩⟩
  · have hopens := opens_of_openNew h
    obtain ⟨vehicle, _, hplaced⟩ := hopens.placed
    refine ⟨hopens.id_eq, hopens.id_eq ▸ hopens.segment?, ?_, Or.inr hopens⟩
    rw [hplaced]
    rfl

end Store

namespace Processor

open Handler

variable {processor : Processor} {event : SegmentEvent} {finish : Endpoint} {store : Store}
  {loaded : Segment} {outcomes : Outcomes}

/-- What the archiving of a segment gives. -/
def archived (processor : Processor) (outcomes : Outcomes) (device : String) (segment : Segment)
    (finish : Instant) : Except SegmentError (Option String) :=
  if processor.options.fetch then do
    let raw ← (outcomes.telemetry ⟨device, segment.startTime, finish⟩).mapError .telemetry
    let item ← (processor.pack raw outcomes.key outcomes.nonce
      (label segment finish)).mapError .package
    if processor.options.upload then do
      let _ ← (outcomes.archive item).mapError .archive
      .ok (some item.id)
    else .ok none
  else .ok none

/-- Taking the value of an answer runs without a call. -/
theorem run_ofExcept {α ε : Type} (outcomes : Outcomes) (wrap : ε → SegmentError)
    (answer : Except ε α) (store : Store) :
    (ofExcept wrap answer).run (serveBy outcomes.answer) store = (answer.mapError wrap, store) := by
  cases answer <;> rfl

/-- A sequence runs as its parts do if both leave the tables as they are. -/
theorem run_bind_kept {α β : Type} {h : Handler α} {f : α → Handler β}
    {first : Except SegmentError α} {second : α → Except SegmentError β}
    (hfirst : h.run (serveBy outcomes.answer) store = (first, store))
    (hsecond : ∀ a, (f a).run (serveBy outcomes.answer) store = (second a, store)) :
    (h.bind f).run (serveBy outcomes.answer) store = (first >>= second, store) := by
  rw [run_bind, hfirst]
  cases first with
  | ok a => exact hsecond a
  | error e => rfl

/-- Opening a segment. -/
theorem run_openSegment_eq (outcomes : Outcomes) (event : SegmentEvent) (store : Store) :
    (openSegment event).run (serveBy outcomes.answer) store =
      match store.openNew event with
      | .error e => (.error e, store)
      | .ok (row, later) => (.ok row, later) := by
  have hread : (Handler.getVehicle event.deviceId).run (serveBy outcomes.answer) store =
      (.ok (store.vehicle? event.deviceId), store) := rfl
  unfold Store.openNew
  cases hvehicle : store.vehicle? event.deviceId with
  | none =>
    show ((Handler.getVehicle event.deviceId).bind _).run (serveBy outcomes.answer) store = _
    rw [run_bind, hread, hvehicle]
    rfl
  | some vehicle =>
    cases hrow : store.segment? event.id with
    | none => exact run_openSegment outcomes hvehicle hrow
    | some row =>
      obtain ⟨ended, hprior, _⟩ := run_priorEnd outcomes vehicle event.start.location store
      have hrefused : store.insertSegment (placed event vehicle
          (Placement.resolve ended event.start.location)) =
            .error (.duplicate (Store.segmentName event.id)) :=
        Store.insertSegment_of_segment? (Store.knows_of_vehicle? hvehicle) hrow
      show ((Handler.getVehicle event.deviceId).bind _).run (serveBy outcomes.answer) store = _
      rw [run_bind, hread, hvehicle]
      show ((priorEnd vehicle event.start.location).bind _).run (serveBy outcomes.answer) store = _
      rw [run_bind, hprior]
      show ((ofExcept SegmentError.store (store.after (store.insertSegment (placed event vehicle
        (Placement.resolve ended event.start.location)))).1).bind _).run (serveBy outcomes.answer)
          (store.after (store.insertSegment _)).2 = _
      rw [hrefused]
      rfl

/-- A begin event opens its segment. -/
theorem run_begin (outcomes : Outcomes) (event : SegmentEvent) (store : Store) :
    (begin event).run (serveBy outcomes.answer) store =
      if (store.segment? event.id).any Segment.isClosed then
        (.error (.alreadyClosed event.id), store)
      else match store.openNew event with
        | .error e => (.error e, store)
        | .ok (_, later) => (.ok (), later) := by
  show ((Handler.getSegment event.id).bind _).run (serveBy outcomes.answer) store = _
  rw [run_bind, run_getSegment]
  dsimp only
  split
  · rfl
  · show ((openSegment event).bind _).run (serveBy outcomes.answer) store = _
    rw [run_bind, run_openSegment_eq]
    cases store.openNew event <;> rfl

/-- Loading a segment. -/
theorem run_loadOpen (outcomes : Outcomes) (event : SegmentEvent) (store : Store) :
    (loadOpen event).run (serveBy outcomes.answer) store =
      match store.load event with
      | .error e => (.error e, store)
      | .ok (loaded, between) => (.ok loaded, between) := by
  unfold Store.load
  cases hrow : store.segment? event.id with
  | some row =>
    cases hclosed : row.isClosed with
    | false =>
      simp only [hclosed, Bool.false_eq_true, if_false]
      exact run_loadOpen_of_open hrow hclosed
    | true =>
      rw [loadOpen_eq, run_bind, run_getSegment, hrow]
      simp only [Option.elim, Handler.bind, hclosed, if_true]
      rfl
  | none =>
    cases hvehicle : store.vehicle? event.deviceId with
    | some vehicle =>
      rw [run_loadOpen_of_fresh hvehicle hrow]
      simp [Store.openNew, hrow, hvehicle]
    | none =>
      have hopen := run_openSegment_eq outcomes event store
      simp only [Store.openNew, hvehicle] at hopen ⊢
      rw [loadOpen_eq, run_bind, run_getSegment, hrow]
      simp only [Option.elim]
      rw [run_bind, openOrReload, run_recover, hopen]
      rfl

/-- Placing a late start. -/
theorem run_placeLate (outcomes : Outcomes) (loaded : Segment) (start : Option Point)
    (store : Store) : (placeLate loaded start).run (serveBy outcomes.answer) store =
      (.ok (store.placedLate loaded start), store) := by
  cases start with
  | none => rfl
  | some start =>
    unfold placeLate Store.placedLate
    dsimp only
    split
    · have hread : (Handler.priorSegment loaded.vehicleToken).run (serveBy outcomes.answer) store =
          (.ok (store.prior? loaded.vehicleToken), store) := rfl
      show ((Handler.priorSegment loaded.vehicleToken).bind _).run (serveBy outcomes.answer) store =
        _
      rw [run_bind, hread]
      dsimp only
      cases lateEstimate (store.prior? loaded.vehicleToken) start <;> rfl
    · rfl

/-- Archiving a segment. -/
theorem run_archive (processor : Processor) (outcomes : Outcomes) (device : String)
    (segment : Segment) (finish : Instant) (store : Store) :
    (processor.archive device segment finish outcomes.key).run (serveBy outcomes.answer) store =
      (processor.archived outcomes device segment finish, store) := by
  unfold archive archived
  split
  · refine run_bind_kept (run_ofExcept outcomes _ _ store) fun raw => ?_
    show ((ofExcept .package (processor.pack raw outcomes.key outcomes.nonce
      (label segment finish))).bind _).run (serveBy outcomes.answer) store = _
    refine run_bind_kept (run_ofExcept outcomes _ _ store) fun item => ?_
    split
    · exact run_bind_kept (run_ofExcept outcomes _ _ store) fun _ => rfl
    · rfl
  · rfl

/-- Closing a segment that is loaded. -/
theorem run_closing (processor : Processor) (outcomes : Outcomes) (event : SegmentEvent)
    (finish : Endpoint) (hrow : store.segment? loaded.id = some loaded)
    (hopen : loaded.isClosed = false) :
    (processor.closing event finish loaded).run (serveBy outcomes.answer) store =
      match processor.archived outcomes event.deviceId loaded finish.time with
      | .error e => (.error e, store)
      | .ok archiveId => (.ok (), store.completing loaded.id
          (completion finish (store.placedLate loaded event.start.location) outcomes.key
            archiveId)) := by
  have hplaced := store.placedLate_eq loaded event.start.location
  have harchived : processor.archived outcomes event.deviceId
      (store.placedLate loaded event.start.location) finish.time =
        processor.archived outcomes event.deviceId loaded finish.time := by
    rw [hplaced]
    rfl
  have hid : (store.placedLate loaded event.start.location).id = loaded.id := by
    rw [hplaced]
  rw [closing, run_bind, run_placeLate]
  show ((processor.archive event.deviceId _ finish.time outcomes.key).bind _).run
    (serveBy outcomes.answer) store = _
  rw [run_bind, run_archive, harchived]
  cases processor.archived outcomes event.deviceId loaded finish.time with
  | error e => rfl
  | ok archiveId =>
    show (ofExcept SegmentError.store (store.after (store.closeSegment
      (store.placedLate loaded event.start.location).id _)).1).run (serveBy outcomes.answer)
        (store.after (store.closeSegment (store.placedLate loaded event.start.location).id _)).2 = _
    rw [hid, Store.closeSegment_eq hrow hopen]
    rfl

/-- A complete event with an end loads its segment, and closes it if its telemetry is archived. -/
theorem run_complete (processor : Processor) (outcomes : Outcomes) (store : Store)
    (hfinish : event.finish = some finish) :
    (processor.complete event).run (serveBy outcomes.answer) store =
      match store.load event with
      | .error e => (.error e, store)
      | .ok (loaded, between) =>
        match processor.archived outcomes event.deviceId loaded finish.time with
        | .error e => (.error e, between)
        | .ok archiveId => (.ok (), between.completing loaded.id
            (completion finish (between.placedLate loaded event.start.location) outcomes.key
              archiveId)) := by
  rw [complete_eq_closing processor hfinish, run_bind, run_loadOpen]
  cases hload : store.load event with
  | error e => rfl
  | ok found =>
    have hloads := Store.loads_of_load hload
    exact run_closing processor outcomes event finish hloads.row hloads.isOpen

end Processor

end TripArchive
