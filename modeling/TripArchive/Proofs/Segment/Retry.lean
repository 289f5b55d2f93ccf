import TripArchive.Proofs.Race.Outcome
import TripArchive.Proofs.Segment.Ahead
import TripArchive.Proofs.Segment.Strict

/-!
# Handling a complete event again

A complete event may fail any number of times, with requests about other vehicles handled in
between. All that its attempts can leave is the open row, and the next attempt closes it as it would
close a row of its own. So the last attempt ends as if it was the first.
-/

namespace TripArchive

namespace Processor

open Handler

variable {processor : Processor} {event : SegmentEvent} {finish : Endpoint} {vehicle : Vehicle}
  {row : Segment} {store later a b : Store} {outcomes : Outcomes}

/-- A segment is read. -/
theorem run_getSegment (id : String) (store : Store) :
    (Handler.getSegment id).run (serveBy outcomes.answer) store =
      (.ok (store.segment? id), store) := rfl

/-- An open row is loaded as it is. -/
theorem run_loadOpen_of_open (hrow : store.segment? event.id = some row)
    (hopen : row.isClosed = false) :
    (loadOpen event).run (serveBy outcomes.answer) store = (.ok row, store) := by
  rw [loadOpen_eq, run_bind, run_getSegment, hrow]
  simp only [Option.elim, Handler.bind, hopen, Bool.false_eq_true, if_false]
  rfl

/-- Looking up where the previous segment ended leads to the placement that the tables determine. -/
theorem run_priorEnd (outcomes : Outcomes) (vehicle : Vehicle) (start : Option Point)
    (store : Store) :
    ∃ ended, (priorEnd vehicle start).run (serveBy outcomes.answer) store = (.ok ended, store) ∧
      Placement.resolve ended start =
        Placement.resolve ((store.prior? vehicle.token).bind Segment.endPosition) start := by
  cases start with
  | none => exact ⟨none, rfl, by simp only [Placement.resolve_none]⟩
  | some start => exact ⟨_, rfl, rfl⟩

/-- A segment is inserted. -/
theorem run_insertSegment (hinsert : store.insertSegment row = .ok later) :
    (Handler.insertSegment row).run (serveBy outcomes.answer) store = (.ok (), later) := by
  show (ofExcept SegmentError.store (store.after (store.insertSegment row)).1).run
    (serveBy outcomes.answer) (store.after (store.insertSegment row)).2 = _
  rw [hinsert]
  rfl

/-- The segment of an event is opened if it is missing. -/
theorem run_openSegment (outcomes : Outcomes)
    (hvehicle : store.vehicle? event.deviceId = some vehicle)
    (hfresh : store.segment? event.id = none) :
    (openSegment event).run (serveBy outcomes.answer) store =
      (.ok (store.opening event vehicle),
        { store with segments := store.segments ++ [store.opening event vehicle] }) := by
  obtain ⟨ended, hprior, hplaced⟩ :=
    run_priorEnd outcomes vehicle event.start.location store
  have hopening : placed event vehicle (Placement.resolve ended event.start.location) =
      store.opening event vehicle := by
    rw [hplaced]
    rfl
  have hinsert : store.insertSegment (store.opening event vehicle) =
      .ok { store with segments := store.segments ++ [store.opening event vehicle] } := by
    have hknown : store.knows (store.opening event vehicle).vehicleToken = true :=
      Store.knows_of_vehicle? hvehicle
    have hnew : store.segment? (store.opening event vehicle).id = none := hfresh
    simp [Store.insertSegment, hknown, hnew]
  have hread : (Handler.getVehicle event.deviceId).run (serveBy outcomes.answer) store =
      (.ok (store.vehicle? event.deviceId), store) := rfl
  show ((Handler.getVehicle event.deviceId).bind _).run (serveBy outcomes.answer) store = _
  rw [run_bind, hread, hvehicle]
  show ((priorEnd vehicle event.start.location).bind _).run (serveBy outcomes.answer) store = _
  rw [run_bind, hprior]
  show ((Handler.insertSegment (placed event vehicle (Placement.resolve ended
    event.start.location))).bind fun _ => done _).run (serveBy outcomes.answer) store = _
  rw [hopening, run_bind, run_insertSegment hinsert]
  rfl

/-- A missing row is opened. -/
theorem run_loadOpen_of_fresh (hvehicle : store.vehicle? event.deviceId = some vehicle)
    (hfresh : store.segment? event.id = none) :
    (loadOpen event).run (serveBy outcomes.answer) store = (.ok (store.opening event vehicle),
      { store with segments := store.segments ++ [store.opening event vehicle] }) := by
  rw [loadOpen_eq, run_bind, run_getSegment, hfresh]
  have hopen := run_openSegment outcomes hvehicle hfresh
  simp only [Option.elim]
  rw [run_bind, openOrReload, run_recover_of_ok hopen]
  rfl

/-- Closing a row that was just opened takes alike tables to alike ones: the row needs no late
start, so that nobody asks for a previous segment. -/
theorem tracks_closing_opening (processor : Processor) (store : Store) (event : SegmentEvent)
    (vehicle : Vehicle) (finish : Endpoint) :
    (processor.closing event finish (store.opening event vehicle)).Only
      (Store.Tracks Store.Alike) := by
  have hplaced : placeLate (store.opening event vehicle) event.start.location =
      done (store.opening event vehicle) :=
    Contest.placeLate_opened ⟨event, finish, vehicle,
      (store.prior? vehicle.token).bind Segment.endPosition, Run.filled 0, none⟩
  unfold closing
  rw [hplaced]
  refine ⟨Store.tracks_alike nofun, fun key => Only.bind ?_ fun archiveId => ?_⟩
  · exact only_archive processor _ _ _ key (fun _ => Store.tracks_alike nofun)
      (Store.tracks_alike nofun) fun _ => Store.tracks_alike nofun
  · exact ⟨Store.tracks_alike nofun, fun answer => only_ofExcept answer⟩

/-- A complete event closes the open row that is there. -/
theorem run_complete_of_open (processor : Processor) (hfinish : event.finish = some finish)
    (hrow : store.segment? event.id = some row) (hopen : row.isClosed = false) :
    (processor.complete event).run (serveBy outcomes.answer) store =
      (processor.closing event finish row).run (serveBy outcomes.answer) store := by
  rw [complete_eq_closing processor hfinish, run_bind, run_loadOpen_of_open hrow hopen]

/-- A complete event opens a row that is missing, and closes it. -/
theorem run_complete_of_fresh (processor : Processor) (hfinish : event.finish = some finish)
    (hvehicle : store.vehicle? event.deviceId = some vehicle)
    (hfresh : store.segment? event.id = none) :
    (processor.complete event).run (serveBy outcomes.answer) store =
      (processor.closing event finish (store.opening event vehicle)).run (serveBy outcomes.answer)
        { store with segments := store.segments ++ [store.opening event vehicle] } := by
  rw [complete_eq_closing processor hfinish, run_bind, run_loadOpen_of_fresh hvehicle hfresh]

/-- Handled once more after nothing but the opening of its row, a complete event ends as if it was
handled for the first time. -/
theorem run_complete_of_opens (processor : Processor) (outcomes : Outcomes)
    (hopens : store.Opens event row later) (hfinish : event.finish = some finish) :
    (processor.complete event).run (serveBy outcomes.answer) later =
      (processor.complete event).run (serveBy outcomes.answer) store := by
  obtain ⟨vehicle, hvehicle, rfl⟩ := hopens.placed
  rw [run_complete_of_fresh processor hfinish hvehicle hopens.fresh, ← hopens.added]
  exact run_complete_of_open processor hfinish hopens.segment? rfl

/-- Handled once more on tables that are ahead, a complete event ends as on those without the
earlier attempt. -/
theorem run_complete_of_ahead (processor : Processor) (outcomes : Outcomes)
    (hahead : Store.Ahead event vehicle a b) (hfinish : event.finish = some finish) :
    ((processor.complete event).run (serveBy outcomes.answer) a).1 =
        ((processor.complete event).run (serveBy outcomes.answer) b).1 ∧
      ((processor.complete event).run (serveBy outcomes.answer) a).2.Alike
        ((processor.complete event).run (serveBy outcomes.answer) b).2 := by
  have hrow : a.segment? event.id = some (b.opening event vehicle) := by
    rw [Store.segment?_eq_head?, hahead.opened]
    rfl
  have hfresh : b.segment? event.id = none := by
    rw [Store.segment?_eq_head?, hahead.fresh]
    rfl
  rw [run_complete_of_open processor hfinish hrow rfl,
    run_complete_of_fresh processor hfinish hahead.registered hfresh]
  exact outcomes.run_tracks (tracks_closing_opening processor b event vehicle finish) hahead.alike

end Processor

/-- A request that was handled by itself: the answers that it got and its result. -/
structure Handling where
  request : Request
  trace : List Answered
  result : Except SegmentError Unit

/-- Requests that are handled one after the other, each by itself with the answers that it gets. -/
inductive InTurn (processor : Processor) (store : Store) : List Handling → Store → Prop
  | start : InTurn processor store [] store
  | next {others : List Handling} {handling : Handling} {between later : Store}
      (h : InTurn processor store others between)
      (hends : (handling.request.handler processor).Ends Store.Answers between handling.trace
        handling.result later) :
      InTurn processor store (others ++ [handling]) later

/-- A complete event that is attempted any number of times, each time with a failed call or to an
error, while requests about other vehicles are handled in between. -/
inductive Retried (processor : Processor) (event : SegmentEvent) (store : Store) :
    List Handling → Store → Prop
  | start : Retried processor event store [] store
  | attempt {others : List Handling} {between later : Store} {trace : List Answered}
      {result : Except SegmentError Unit} (h : Retried processor event store others between)
      (hends : (processor.complete event).Ends Store.Answers between trace result later)
      (hfailed : (∃ answered ∈ trace, answered.failed = true) ∨ ∃ e, result = .error e) :
      Retried processor event store others later
  | beside {others : List Handling} {handling : Handling} {between later : Store}
      (h : Retried processor event store others between)
      (hbeside : handling.request.Beside between event)
      (hends : (handling.request.handler processor).Ends Store.Answers between handling.trace
        handling.result later) :
      Retried processor event store (others ++ [handling]) later

namespace Retried

variable {processor : Processor} {event : SegmentEvent} {store between later : Store}
  {others : List Handling} {trace : List Answered} {result : Except SegmentError Unit}

/-- What an attempt leaves that had a failed call or ended in an error. -/
theorem of_attempt
    (hends : (processor.complete event).Ends Store.Answers between trace result later)
    (hfailed : (∃ answered ∈ trace, answered.failed = true) ∨ ∃ e, result = .error e) :
    later = between ∨ ∃ finish row, event.finish = some finish ∧
      between.Opens event row later := by
  cases result with
  | error e => exact Processor.ends_complete hends
  | ok value =>
    rcases hfailed with ⟨answered, hmem, hfailed⟩ | ⟨e, he⟩
    · rw [Processor.strict_complete processor event _ _ _ _ hends answered hmem] at hfailed
      cases hfailed
    · cases he

/-- Without the attempts the other requests get the same answers, and the tables are ahead by the
opened row at most. -/
theorem exists_inTurn (h : Retried processor event store others between) :
    ∃ rest, InTurn processor store others rest ∧
      (between = rest ∨ ∃ finish vehicle, event.finish = some finish ∧
        Store.Ahead event vehicle between rest) := by
  induction h with
  | start => exact ⟨store, .start, Or.inl rfl⟩
  | attempt _ hends hfailed ih =>
    obtain ⟨rest, hturn, hrest⟩ := ih
    refine ⟨rest, hturn, ?_⟩
    rcases of_attempt hends hfailed with rfl | ⟨finish, row, hfinish, hopens⟩
    · exact hrest
    · rcases hrest with rfl | ⟨_, vehicle, _, hahead⟩
      · obtain ⟨vehicle, hahead⟩ := hopens.ahead
        exact Or.inr ⟨finish, vehicle, hfinish, hahead⟩
      · -- The row is there already, so that this attempt has not opened it.
        have hfresh := hopens.fresh
        rw [Store.segment?_eq_head?, hahead.opened] at hfresh
        cases hfresh
  | beside _ hbeside hends ih =>
    obtain ⟨rest, hturn, rfl | ⟨finish, vehicle, hfinish, hahead⟩⟩ := ih
    · exact ⟨_, hturn.next hends, Or.inl rfl⟩
    · obtain ⟨rest', hends', hahead'⟩ := hahead.request hbeside hends
      exact ⟨rest', hturn.next hends', Or.inr ⟨finish, vehicle, hfinish, hahead'⟩⟩

/-- If nothing was handled in between, attempts have changed nothing or opened the row. -/
theorem opens (h : Retried processor event store [] between) :
    between = store ∨ ∃ finish row, event.finish = some finish ∧
      store.Opens event row between := by
  generalize hnone : ([] : List Handling) = others at h
  induction h with
  | start => exact Or.inl rfl
  | attempt _ hends hfailed ih =>
    rcases of_attempt hends hfailed with rfl | ⟨finish, row, hfinish, hopens⟩
    · exact ih hnone
    · rcases ih hnone with rfl | ⟨_, _, _, hopened⟩
      · exact Or.inr ⟨finish, row, hfinish, hopens⟩
      · have hfresh := hopens.fresh
        rw [hopened.segment?] at hfresh
        cases hfresh
  | beside => simp at hnone

end Retried

namespace Processor

variable {processor : Processor} {event : SegmentEvent} {store between : Store}
  {others : List Handling}

/-- Retrying a complete event converges. However often it was attempted with a failed call or to an
error, and whatever requests about other vehicles were handled in between, one more attempt with
healthy collaborators ends with the result and the tables that it has if the event was never
attempted before and only the others were handled, with the answers that they got. If nothing was
handled in between, these are the tables that a single attempt leaves from the start, and the same
list of rows. -/
theorem retry_converges (hretried : Retried processor event store others between)
    (healthy : Healthy) :
    (∃ rest, InTurn processor store others rest ∧
      ((processor.complete event).run healthy.serve between).1 =
        ((processor.complete event).run healthy.serve rest).1 ∧
      ((processor.complete event).run healthy.serve between).2.Alike
        ((processor.complete event).run healthy.serve rest).2) ∧
    (others = [] → (processor.complete event).run healthy.serve between =
      (processor.complete event).run healthy.serve store) := by
  rw [healthy.serve_eq]
  constructor
  · obtain ⟨rest, hturn, rfl | ⟨finish, vehicle, hfinish, hahead⟩⟩ :=
      hretried.exists_inTurn
    · exact ⟨between, hturn, rfl, rfl, fun _ => rfl⟩
    · obtain ⟨hresult, halike⟩ :=
        run_complete_of_ahead processor healthy.outcomes hahead hfinish
      exact ⟨rest, hturn, hresult, halike⟩
  · rintro rfl
    rcases hretried.opens with rfl | ⟨finish, row, hfinish, hopens⟩
    · rfl
    · exact run_complete_of_opens processor healthy.outcomes hopens hfinish

/-- The request that records another vehicle. -/
def newcomer : Request := .vehicle ⟨"", "", "", "", none, mintType, ⟨none, none, "other", 8⟩⟩

/-- A ride is opened, but its telemetry cannot be fetched. Another vehicle is recorded, and then the
ride is completed: with the tables that a single attempt would have left. -/
theorem retried_ride_converges :
    ∃ other between rest, other.request = newcomer ∧
      Retried Request.archiving Run.ride Request.oneVehicle [other] between ∧
      between.segments = Request.rideOpened.segments ∧
      InTurn Request.archiving Request.oneVehicle [other] rest ∧
      ((Request.archiving.complete Run.ride).run Race.steady.serve between).2.Alike
        ((Request.archiving.complete Run.ride).run Race.steady.serve rest).2 := by
  obtain ⟨trace, hends⟩ := Request.exists_unfetched
  have hopened : Retried Request.archiving Run.ride Request.oneVehicle [] Request.rideOpened :=
    .attempt .start hends (Or.inr ⟨_, rfl⟩)
  let recorded : Handling := ⟨newcomer, [⟨.upsertVehicle "other" 8, .ok ()⟩], .ok ()⟩
  have hrecorded : Retried Request.archiving Run.ride Request.oneVehicle [recorded]
      ⟨[⟨7, "device"⟩, ⟨8, "other"⟩], Request.rideOpened.segments⟩ :=
    .beside hopened nofun (.call (.served rfl) (.done _ _))
  obtain ⟨⟨rest, hturn, _, halike⟩, _⟩ := retry_converges hrecorded Race.steady
  exact ⟨recorded, _, rest, rfl, hrecorded, rfl, hturn, halike⟩

end Processor

end TripArchive
