import TripArchive.Proofs.Run.Placement
import TripArchive.Proofs.Segment.Course

/-!
# When there is no previous end

A vehicle may have no segment that ended, or the one that ended last may not say where. Either way
there is no previous end that a start could be compared with, and opening a segment makes no
difference between the two. A start that is reported late does: it is the estimate if no segment has
ended, and it is lost if the last one ended nowhere. `starts_part_only_late` says that nothing else
tells them apart.
-/

namespace TripArchive

/-- What a row says of its start. -/
def Segment.placement (row : Segment) : Placement :=
  ⟨row.startPosition, row.startEstimate, row.droppedData⟩

/-- A complete event of a row without a start that reports one. -/
inductive Request.ReportsLate (store : Store) (reported : Point) : Request → Prop
  | complete {event : SegmentEvent} {row : Segment} (hrow : store.segment? event.id = some row)
      (hunknown : row.startUnknown = true) (hreported : event.start.location = some reported) :
      ReportsLate store reported (.complete event)

namespace Store

variable {store first second : Store} {token : Int} {event : SegmentEvent} {loaded : Segment}

/-- Whether segments of a vehicle have ended, and the one that ended last does not say where. -/
structure EndedNowhere (store : Store) (token : Int) : Prop where
  ended : ¬ store.NoneEnded token
  nowhere : ∀ prior finish, store.EndedLast token prior finish → prior.endPosition = none

/-- The vehicle of the segment of an event: that of its row, or else that of the device. -/
def owner? (store : Store) (event : SegmentEvent) : Option Int :=
  match store.segment? event.id with
  | some row => some row.vehicleToken
  | none => (store.vehicle? event.deviceId).map Vehicle.token

/-- Tables that tell the same of an event and of which neither knows a previous end. -/
structure NoPriorEnd (first second : Store) (event : SegmentEvent) : Prop where
  row : first.segment? event.id = second.segment? event.id
  vehicle : first.vehicle? event.deviceId = second.vehicle? event.deviceId
  /-- In the first no segment of the vehicle has ended. -/
  noneEnded : ∀ token, first.owner? event = some token → first.NoneEnded token
  /-- In the second the segment of the vehicle that ended last ended nowhere. -/
  nowhere : ∀ token, first.owner? event = some token → second.EndedNowhere token

/-- The segment that is found says nothing of its end. -/
theorem EndedNowhere.exists_prior (h : store.EndedNowhere token) :
    ∃ prior, store.prior? token = some prior ∧ prior.endPosition = none := by
  cases hprior : store.prior? token with
  | none => exact absurd (prior?_eq_none_iff.mp hprior) h.ended
  | some prior =>
    obtain ⟨finish, hlast⟩ := endedLast_of_prior? hprior
    exact ⟨prior, rfl, h.nowhere prior finish hlast⟩

/-- Without an ended segment a late report is the estimate. -/
theorem placedLate_of_noneEnded (h : store.NoneEnded loaded.vehicleToken)
    (hunknown : loaded.startUnknown = true) (reported : Point) :
    store.placedLate loaded (some reported) =
      { loaded with startEstimate := some reported, droppedData := true } := by
  simp [placedLate, hunknown, prior?_eq_none_iff.mpr h, lateEstimate]

/-- If the last segment ended nowhere a late report changes nothing. -/
theorem placedLate_of_endedNowhere (h : store.EndedNowhere loaded.vehicleToken)
    (start : Option Point) : store.placedLate loaded start = loaded := by
  obtain ⟨prior, hprior, hnowhere⟩ := h.exists_prior
  cases start with
  | none => rfl
  | some reported => simp [placedLate, hprior, lateEstimate, hnowhere]

/-- A start that is known is not placed again. -/
theorem placedLate_of_known (hknown : loaded.startUnknown = false) (start : Option Point) :
    store.placedLate loaded start = loaded := by
  cases start with
  | none => rfl
  | some reported => simp [placedLate, hknown]

/-- The row that an event opens needs no late start. -/
theorem placedLate_opening {vehicle : Vehicle} :
    first.placedLate (store.opening event vehicle) event.start.location =
      store.opening event vehicle := by
  cases hstart : event.start.location with
  | none => rfl
  | some reported =>
    have hknown : (store.opening event vehicle).startUnknown = false :=
      @Contest.startUnknown_opened ⟨event, event.start, vehicle,
        (store.prior? vehicle.token).bind Segment.endPosition, Run.filled 0, none⟩ reported hstart
    exact placedLate_of_known hknown _

namespace NoPriorEnd

/-- The same row is opened, or opening fails alike. -/
theorem openNew (h : NoPriorEnd first second event) :
    (∃ e, first.openNew event = .error e ∧ second.openNew event = .error e) ∨
      ∃ row onFirst onSecond, first.openNew event = .ok (row, onFirst) ∧
        second.openNew event = .ok (row, onSecond) := by
  unfold Store.openNew
  rw [← h.row, ← h.vehicle]
  cases hvehicle : first.vehicle? event.deviceId with
  | none => exact Or.inl ⟨_, rfl, rfl⟩
  | some vehicle =>
    cases hrow : first.segment? event.id with
    | some row => exact Or.inl ⟨_, rfl, rfl⟩
    | none =>
      have howner : first.owner? event = some vehicle.token := by simp [owner?, hrow, hvehicle]
      obtain ⟨prior, hprior, hnowhere⟩ := (h.nowhere _ howner).exists_prior
      have hopening : second.opening event vehicle = first.opening event vehicle := by
        simp [opening, prior?_eq_none_iff.mpr (h.noneEnded _ howner), hprior, hnowhere]
      dsimp only
      rw [hopening]
      exact Or.inr ⟨_, _, _, rfl, rfl⟩

/-- The same segment is loaded, or loading fails alike. -/
theorem load (h : NoPriorEnd first second event) :
    (∃ e, first.load event = .error e ∧ second.load event = .error e) ∨
      ∃ loaded onFirst onSecond, first.load event = .ok (loaded, onFirst) ∧
        second.load event = .ok (loaded, onSecond) := by
  unfold Store.load
  rw [← h.row]
  cases first.segment? event.id with
  | none => exact h.openNew
  | some row =>
    cases hclosed : row.isClosed with
    | true => exact Or.inl ⟨.alreadyClosed event.id, by simp [hclosed], by simp [hclosed]⟩
    | false => exact Or.inr ⟨row, first, second, by simp [hclosed], by simp [hclosed]⟩

/-- A late start is placed alike, unless it is reported for a row that has none. -/
theorem placedLate {onFirst onSecond : Store} (h : NoPriorEnd first second event)
    (hfirst : first.Loads event loaded onFirst) (hsecond : second.Loads event loaded onSecond) :
    (onFirst.placedLate loaded event.start.location = loaded ∧
        onSecond.placedLate loaded event.start.location = loaded ∧
        ∀ reported, ¬ (Request.complete event).ReportsLate first reported) ∨
      ∃ reported, (Request.complete event).ReportsLate first reported ∧
        first.segment? event.id = some loaded ∧ loaded.startUnknown = true ∧
        onFirst.placedLate loaded event.start.location =
          { loaded with startEstimate := some reported, droppedData := true } ∧
        onSecond.placedLate loaded event.start.location = loaded := by
  rcases hfirst.found with ⟨rfl, hrow⟩ | hopens
  · have howner : onFirst.owner? event = some loaded.vehicleToken := by simp [owner?, hrow]
    have hnowhere : onSecond.placedLate loaded event.start.location = loaded := by
      rcases hsecond.found with ⟨rfl, _⟩ | hopens
      · exact placedLate_of_endedNowhere (h.nowhere _ howner) _
      · rw [h.row, hopens.fresh] at hrow
        cases hrow
    cases hunknown : loaded.startUnknown with
    | false =>
      refine Or.inl ⟨placedLate_of_known hunknown _, hnowhere, ?_⟩
      rintro reported ⟨hfound, hlate, _⟩
      rw [hrow] at hfound
      cases hfound
      rw [hunknown] at hlate
      cases hlate
    | true =>
      cases hstart : event.start.location with
      | none =>
        rw [hstart] at hnowhere
        refine Or.inl ⟨rfl, hnowhere, ?_⟩
        rintro reported ⟨_, _, hreported⟩
        rw [hstart] at hreported
        cases hreported
      | some reported =>
        rw [hstart] at hnowhere
        exact Or.inr ⟨reported, .complete hrow hunknown hstart, hrow, rfl,
          placedLate_of_noneEnded (h.noneEnded _ howner) hunknown reported, hnowhere⟩
  · obtain ⟨vehicle, _, rfl⟩ := hopens.placed
    refine Or.inl ⟨placedLate_opening, placedLate_opening, ?_⟩
    rintro reported ⟨hfound, _, _⟩
    rw [hopens.fresh] at hfound
    cases hfound

end NoPriorEnd

end Store

namespace Processor

open Handler Store

variable {processor : Processor} {request : Request} {event : SegmentEvent}
  {store first second : Store}

/-- The rows of one segment that a request leaves in two tables of which neither knows a previous
end. -/
inductive Parting (store : Store) (request : Request) (result : Except SegmentError Unit) :
    Option Segment → Option Segment → Prop
  /-- They are the same, unless a late report succeeds. -/
  | together (row : Option Segment)
      (h : ∀ reported, request.ReportsLate store reported → result ≠ .ok ()) :
      Parting store request result row row
  /-- A late report that succeeds is the estimate in the first and lost in the second. -/
  | apart {reported : Point} {placed lost : Segment} (hlate : request.ReportsLate store reported)
      (hok : result = .ok ()) (hplaced : placed.placement = ⟨none, some reported, true⟩)
      (hlost : lost.placement = ⟨none, none, false⟩) :
      Parting store request result (some placed) (some lost)

/-- A request that fails leaves the same rows if it finds the same. -/
theorem Parting.of_error {e : SegmentError} {row other : Option Segment} (h : row = other) :
    Parting store request (.error e) row other :=
  h ▸ .together row fun _ _ => nofun

/-- A begin event leaves the same rows. -/
theorem begin_parts (h : first.NoPriorEnd second event) (outcomes : Outcomes) :
    ∃ result onFirst onSecond,
      (begin event).run (serveBy outcomes.answer) first = (result, onFirst) ∧
      (begin event).run (serveBy outcomes.answer) second = (result, onSecond) ∧
      Parting first (.begin event) result (onFirst.segment? event.id)
        (onSecond.segment? event.id) := by
  rw [run_begin, run_begin, ← h.row]
  split
  · exact ⟨_, _, _, rfl, rfl, .of_error h.row⟩
  · rcases h.openNew with ⟨e, hfirst, hsecond⟩ | ⟨row, onFirst, onSecond, hfirst, hsecond⟩
    · rw [hfirst, hsecond]
      exact ⟨_, _, _, rfl, rfl, .of_error h.row⟩
    · rw [hfirst, hsecond]
      refine ⟨_, _, _, rfl, rfl, ?_⟩
      rw [(opens_of_openNew hfirst).segment?, (opens_of_openNew hsecond).segment?]
      exact .together _ nofun

/-- A complete event leaves the same rows, unless it reports a late start. -/
theorem complete_parts (processor : Processor) (h : first.NoPriorEnd second event)
    (hshape : ∀ row, first.segment? event.id = some row → row.OneStart) (outcomes : Outcomes) :
    ∃ result onFirst onSecond,
      (processor.complete event).run (serveBy outcomes.answer) first = (result, onFirst) ∧
      (processor.complete event).run (serveBy outcomes.answer) second = (result, onSecond) ∧
      Parting first (.complete event) result (onFirst.segment? event.id)
        (onSecond.segment? event.id) := by
  cases hfinish : event.finish with
  | none =>
    have hfailed : processor.complete event = fail (.missingEnd event.id) := by
      unfold complete
      rw [hfinish]
    rw [hfailed]
    exact ⟨_, _, _, rfl, rfl, .of_error h.row⟩
  | some finish =>
    rw [run_complete processor outcomes first hfinish,
      run_complete processor outcomes second hfinish]
    rcases h.load with ⟨e, hfirst, hsecond⟩ | ⟨loaded, onFirst, onSecond, hfirst, hsecond⟩
    · rw [hfirst, hsecond]
      exact ⟨_, _, _, rfl, rfl, .of_error h.row⟩
    have hloads := loads_of_load hfirst
    have hloads' := loads_of_load hsecond
    rw [hfirst, hsecond, ← hloads.id]
    dsimp only
    cases processor.archived outcomes event.deviceId loaded finish.time with
    | error e => exact ⟨_, _, _, rfl, rfl, .of_error (hloads.row.trans hloads'.row.symm)⟩
    | ok archiveId =>
      refine ⟨_, _, _, rfl, rfl, ?_⟩
      rw [segment?_completing hloads.row hloads.isOpen,
        segment?_completing hloads'.row hloads'.isOpen]
      rcases h.placedLate hloads hloads' with
        ⟨hplaced, hplaced', hlate⟩ | ⟨reported, hlate, hrow, hunknown, hplaced, hlost⟩
      · rw [hplaced, hplaced']
        exact .together _ fun reported hreports => absurd hreports (hlate reported)
      · obtain ⟨hposition, hestimate⟩ := Segment.startUnknown_iff.mp hunknown
        have hdropped : loaded.droppedData = false := by
          rw [Bool.eq_false_iff]
          intro hmarked
          exact (hshape loaded hrow).dropped.mp hmarked hestimate
        rw [hplaced, hlost]
        refine .apart hlate rfl ?_ ?_
        · simp [Segment.placement, Segment.complete, completion, hposition]
        · simp [Segment.placement, Segment.complete, completion, hposition, hestimate, hdropped]

end Processor

namespace Run

open Handler Processor

variable {processor : Processor} {run : Run}

/-- Only a late start tells tables without an ended segment from tables in which the last one ended
nowhere. Take the tables of a reachable run and others that agree with them on the row of a segment
and on the vehicle of a device, and let no segment of the vehicle of the segment have ended in the
first, while in the others the one that ended last does not say where. A begin or complete event of
the segment has the same result on both and leaves the same row, with one exception: if a complete
event succeeds that reports a start for a row that has none, this start is the estimate in the first
and nothing is left of it in the others. -/
theorem starts_part_only_late (hrun : Reachable processor run) {other : Store} {request : Request}
    {event : SegmentEvent} (hevent : request.event? = some event)
    (htables : run.store.NoPriorEnd other event) (outcomes : Outcomes) :
    ∃ result onFirst onSecond,
      (request.handler processor).run (serveBy outcomes.answer) run.store = (result, onFirst) ∧
      (request.handler processor).run (serveBy outcomes.answer) other = (result, onSecond) ∧
      Parting run.store request result (onFirst.segment? event.id)
        (onSecond.segment? event.id) := by
  cases request with
  | vehicle _ => cases hevent
  | begin _ =>
    cases hevent
    exact begin_parts htables outcomes
  | complete _ =>
    cases hevent
    exact complete_parts processor htables
      (fun row hrow => (hrun.shapely event.id row hrow).toOneStart) outcomes

/-- A ride of the device is begun without a start. -/
def begunBlind : List Move :=
  [.take mint, .reply 0 .tables, .take (.begin ride), .reply 1 .tables, .reply 1 .tables,
    .reply 1 .tables]

/-- An earlier ride that does not say where it ended. -/
def earlierRide : SegmentEvent :=
  ⟨"earlier", "device", true, ⟨⟨0, 0⟩, none⟩, some ⟨⟨30, 0⟩, none⟩⟩

/-- The ride is begun without a start after the earlier ride is completed. -/
def begunBlindLater : List Move :=
  [.take mint, .reply 0 .tables, .take (.complete earlierRide), .reply 1 .tables, .reply 1 .tables,
    .reply 1 .tables, .reply 1 (.key (filled 1)), .reply 1 .tables, .take (.begin ride),
    .reply 2 .tables, .reply 2 .tables, .reply 2 .tables]

/-- The completion of the ride with its start. -/
def lateRide : SegmentEvent := { ride with start := ⟨⟨60, 0⟩, some depot⟩ }

/-- Before the completion the tables with and without the earlier ride know no previous end. -/
theorem noPriorEnd_lateRide : (start.play offline begunBlind).store.NoPriorEnd
    (start.play offline begunBlindLater).store lateRide := by
  have howner : (start.play offline begunBlind).store.owner? lateRide = some 7 := rfl
  refine ⟨rfl, rfl, ?_, ?_⟩
  · intro token htoken
    rw [howner] at htoken
    cases htoken
    unfold Store.NoneEnded
    decide +kernel
  · intro token htoken
    rw [howner] at htoken
    cases htoken
    constructor
    · unfold Store.NoneEnded
      decide +kernel
    · have hnowhere : ∀ row ∈ (start.play offline begunBlindLater).store.segments,
          row.endPosition = none := by decide +kernel
      exact fun prior finish hlast => hnowhere prior hlast.listed

/-- The completion of the ride leaves two rows that tell whether there was an earlier ride. -/
theorem late_ride_parts : ∃ onFirst onSecond placed lost,
    (offline.complete lateRide).run (serveBy Race.steady.outcomes.answer)
      (start.play offline begunBlind).store = (.ok (), onFirst) ∧
    (offline.complete lateRide).run (serveBy Race.steady.outcomes.answer)
      (start.play offline begunBlindLater).store = (.ok (), onSecond) ∧
    onFirst.segment? "ride" = some placed ∧ onSecond.segment? "ride" = some lost ∧
    placed.startEstimate ≠ lost.startEstimate := by
  have hevent : (Request.complete lateRide).event? = some lateRide := rfl
  obtain ⟨result, onFirst, onSecond, hfirst, hsecond, hparts⟩ :=
    starts_part_only_late (reachable_play offline begunBlind) hevent noPriorEnd_lateRide
      Race.steady.outcomes
  have hok : ((offline.complete lateRide).run (serveBy Race.steady.outcomes.answer)
      (start.play offline begunBlind).store).1 = .ok () := rfl
  obtain rfl : result = .ok () := (congrArg Prod.fst hfirst).symm.trans hok
  have hrow : (start.play offline begunBlind).store.segment? lateRide.id =
      some (Segment.opened "ride" 7 ⟨60, 0⟩) := rfl
  generalize hplaced : onFirst.segment? lateRide.id = placed at hparts
  generalize hlost : onSecond.segment? lateRide.id = lost at hparts
  cases hparts with
  | together _ hnever => exact absurd rfl (hnever depot (.complete hrow rfl rfl))
  | @apart reported placed lost _ _ hreported hnothing =>
    have hestimate : placed.startEstimate = some reported := congrArg Placement.estimate hreported
    have hnone : lost.startEstimate = none := congrArg Placement.estimate hnothing
    refine ⟨onFirst, onSecond, placed, lost, hfirst, hsecond, hplaced, hlost, ?_⟩
    rw [hestimate, hnone]
    nofun

/-- The start that the completion of the ride reports is its estimate if no ride has ended, and is
dropped if the earlier ride has ended without an end position. -/
theorem late_start_lost :
    Reachable offline (start.play offline begunBlind) ∧
      Reachable offline (start.play offline begunBlindLater) ∧
      (start.play offline begunBlind).store.NoPriorEnd
        (start.play offline begunBlindLater).store lateRide ∧
      (((offline.complete lateRide).run (serveBy Race.steady.outcomes.answer)
        (start.play offline begunBlind).store).2.segment? "ride").map Segment.placement =
          some ⟨none, some depot, true⟩ ∧
      (((offline.complete lateRide).run (serveBy Race.steady.outcomes.answer)
        (start.play offline begunBlindLater).store).2.segment? "ride").map Segment.placement =
          some ⟨none, none, false⟩ :=
  ⟨reachable_play offline _, reachable_play offline _, noPriorEnd_lateRide, rfl, rfl⟩

end Run

end TripArchive
