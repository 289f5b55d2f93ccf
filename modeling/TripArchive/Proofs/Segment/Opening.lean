import TripArchive.Proofs.Segment.Path
import TripArchive.Segment.Processor

/-!
# The calls that open a segment

What begin and complete events call while their segment is looked up, opened and placed. Up to the
key of a completion every call is one of `Opening`, and a segment that is loaded open was either
read under its identifier or inserted by the handler itself.
-/

namespace TripArchive.Processor

open Handler

/-- The calls by which the segment of an event is looked up and opened. -/
inductive Opening (event : SegmentEvent) : Call → Prop
  | getSegment : Opening event (.getSegment event.id)
  | getVehicle : Opening event (.getVehicle event.deviceId)
  | priorSegment (token : Int) : Opening event (.priorSegment token)
  | insertSegment (vehicle : Vehicle) (placement : Placement) :
      Opening event (.insertSegment (placed event vehicle placement))

variable {event : SegmentEvent} {trace : List Answered}

/-- Reading a segment is one call. -/
theorem only_getSegment (event : SegmentEvent) :
    (Handler.getSegment event.id).Only (Opening event) :=
  ⟨.getSegment, fun answer => only_ofExcept answer⟩

/-- Reading the previous segment of a vehicle is one call. -/
theorem only_priorSegment (event : SegmentEvent) (token : Int) :
    (Handler.priorSegment token).Only (Opening event) :=
  ⟨.priorSegment token, fun answer => only_ofExcept answer⟩

/-- Opening a segment makes opening calls. -/
theorem only_openSegment (event : SegmentEvent) : (openSegment event).Only (Opening event) := by
  unfold openSegment
  refine Only.bind ⟨.getVehicle, fun answer => only_ofExcept answer⟩ fun found => ?_
  cases found with
  | none => trivial
  | some vehicle =>
    have hprior : (priorEnd vehicle event.start.location).Only (Opening event) := by
      cases event.start.location with
      | none => trivial
      | some start => exact Only.bind (only_priorSegment event vehicle.token) fun _ => trivial
    refine Only.bind hprior fun ended => ?_
    exact Only.bind ⟨.insertSegment vehicle _, fun answer => only_ofExcept answer⟩ fun _ => trivial

/-- A begin event makes opening calls. -/
theorem only_begin (event : SegmentEvent) : (begin event).Only (Opening event) := by
  unfold begin
  refine Only.bind (only_getSegment event) fun existing => ?_
  split
  · trivial
  · exact Only.bind (only_openSegment event) fun _ => trivial

/-- The segment of a complete event is found or opened first, and refused if it is closed. -/
theorem loadOpen_eq (event : SegmentEvent) :
    loadOpen event = (Handler.getSegment event.id).bind fun found =>
      (found.elim (openOrReload event) done).bind fun segment =>
        if segment.isClosed then fail (.alreadyClosed event.id) else done segment := by
  show (Handler.getSegment event.id).bind _ = _
  congr
  funext found
  cases found <;> rfl

/-- Loading the segment of a complete event makes opening calls. -/
theorem only_loadOpen (event : SegmentEvent) : (loadOpen event).Only (Opening event) := by
  rw [loadOpen_eq]
  have hreload : (reload event).Only (Opening event) := by
    refine Only.bind (only_getSegment event) fun found => ?_
    cases found <;> trivial
  refine Only.bind (only_getSegment event) fun found => ?_
  refine Only.bind ?_ fun segment => ?_
  · cases found with
    | some segment => trivial
    | none =>
      refine Only.recover (only_openSegment event) fun e => ?_
      split
      · exact hreload
      · trivial
  · split <;> trivial

/-- Placing a late start makes opening calls. -/
theorem only_placeLate (event : SegmentEvent) (segment : Segment) (start : Option Point) :
    (placeLate segment start).Only (Opening event) := by
  unfold placeLate
  split
  · trivial
  · split
    · refine Only.bind (only_priorSegment event _) fun prior => ?_
      split <;> trivial
    · trivial

/-- An opened segment is the event's own, of the vehicle found for its device, and it was
inserted. -/
theorem openSegment_done {segment : Segment}
    (hpath : Path (openSegment event) trace (done segment)) :
    ∃ vehicle placement, segment = placed event vehicle placement ∧
      ⟨.getVehicle event.deviceId, .ok (some vehicle)⟩ ∈ trace ∧
      ⟨.insertSegment segment, .ok ()⟩ ∈ trace := by
  obtain ⟨first, second, found, rfl, hfound, hrest⟩ := path_bind_done hpath
  obtain ⟨answer, later, rfl, hanswer⟩ := path_call_done hfound
  obtain ⟨rfl, rfl⟩ := path_ofExcept_done hanswer
  cases found with
  | none =>
    obtain ⟨_, hfail⟩ := path_fail.mp hrest
    cases hfail
  | some vehicle =>
    obtain ⟨third, fourth, ended, rfl, _, hinsert⟩ := path_bind_done hrest
    obtain ⟨fifth, sixth, _, rfl, hinserted, hdone⟩ := path_bind_done hinsert
    obtain ⟨answer, later, rfl, hanswer⟩ := path_call_done hinserted
    obtain ⟨rfl, rfl⟩ := path_ofExcept_done hanswer
    obtain ⟨rfl, hsegment⟩ := path_done.mp hdone
    cases hsegment
    exact ⟨vehicle, _, rfl, by simp, by simp⟩

/-- A begin event that succeeds has inserted its segment. -/
theorem begin_done (hpath : Path (begin event) trace (done ())) :
    ∃ segment, segment.id = event.id ∧ ⟨.insertSegment segment, .ok ()⟩ ∈ trace := by
  obtain ⟨first, second, existing, rfl, _, hrest⟩ := path_bind_done hpath
  split at hrest
  · obtain ⟨_, hfail⟩ := path_fail.mp hrest
    cases hfail
  · obtain ⟨third, fourth, segment, rfl, hopen, _⟩ := path_bind_done hrest
    obtain ⟨vehicle, placement, rfl, _, hinsert⟩ := openSegment_done hopen
    refine ⟨placed event vehicle placement, rfl, ?_⟩
    simp [hinsert]

/-- A reloaded segment was read under the event's identifier. -/
theorem reload_done {segment : Segment} (hpath : Path (reload event) trace (done segment)) :
    ⟨.getSegment event.id, .ok (some segment)⟩ ∈ trace := by
  obtain ⟨first, second, found, rfl, hfound, hrest⟩ := path_bind_done hpath
  obtain ⟨answer, later, rfl, hanswer⟩ := path_call_done hfound
  obtain ⟨rfl, rfl⟩ := path_ofExcept_done hanswer
  cases found with
  | none =>
    obtain ⟨_, hfail⟩ := path_fail.mp hrest
    cases hfail
  | some found =>
    obtain ⟨rfl, hsegment⟩ := path_done.mp hrest
    cases hsegment
    simp

/-- The segment of a complete event that is not refused is open, and the handler was shown it. -/
theorem loadOpen_done {segment : Segment} (hpath : Path (loadOpen event) trace (done segment)) :
    segment.isClosed = false ∧ ∃ answered ∈ trace, answered.Shows event.id segment := by
  rw [loadOpen_eq] at hpath
  obtain ⟨first, second, found, rfl, hfound, hrest⟩ := path_bind_done hpath
  obtain ⟨third, fourth, loaded, rfl, hloaded, hguard⟩ := path_bind_done hrest
  have hopen : fourth = [] ∧ segment = loaded ∧ loaded.isClosed = false := by
    split at hguard
    · obtain ⟨_, hfail⟩ := path_fail.mp hguard
      cases hfail
    · next hopen =>
      obtain ⟨htrace, hsegment⟩ := path_done.mp hguard
      cases hsegment
      exact ⟨htrace, rfl, by simpa using hopen⟩
  obtain ⟨rfl, rfl, hopen⟩ := hopen
  refine ⟨hopen, ?_⟩
  cases found with
  | some found =>
    obtain ⟨answer, later, rfl, hanswer⟩ := path_call_done hfound
    obtain ⟨rfl, rfl⟩ := path_ofExcept_done hanswer
    obtain ⟨rfl, hsegment⟩ := path_done.mp hloaded
    cases hsegment
    exact ⟨_, by simp, .read⟩
  | none =>
    rcases path_recover_done hloaded with hopened | ⟨fifth, sixth, e, rfl, _, hrecovered⟩
    · obtain ⟨vehicle, placement, rfl, _, hinsert⟩ := openSegment_done hopened
      exact ⟨_, by simp [hinsert], .inserted rfl⟩
    · split at hrecovered
      · exact ⟨_, by simp [reload_done hrecovered], .read⟩
      · obtain ⟨_, hfail⟩ := path_fail.mp hrecovered
        cases hfail

/-- A late start changes the estimate and the mark of a segment and nothing else. -/
theorem placeLate_done {segment later : Segment} {start : Option Point}
    (hpath : Path (placeLate segment start) trace (done later)) :
    later =
      { segment with startEstimate := later.startEstimate, droppedData := later.droppedData } := by
  unfold placeLate at hpath
  split at hpath
  · obtain ⟨_, hsegment⟩ := path_done.mp hpath
    cases hsegment
    rfl
  · split at hpath
    · obtain ⟨first, second, prior, rfl, _, hrest⟩ := path_bind_done hpath
      split at hrest <;>
      · obtain ⟨_, hsegment⟩ := path_done.mp hrest
        cases hsegment
        rfl
    · obtain ⟨_, hsegment⟩ := path_done.mp hpath
      cases hsegment
      rfl

end TripArchive.Processor
