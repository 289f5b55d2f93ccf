import TripArchive.Proofs.Segment.Provenance
import TripArchive.Proofs.Segment.Retry
import TripArchive.Proofs.Segment.Shape
import TripArchive.Proofs.Store.Prior

/-!
# How starts are placed

`PlacedOnOpening` and `PlacedLate` say by the segment of the vehicle that ended last what start a
new row has, and what estimate a late report leads to. Opening and completing by itself place starts
so, whichever calls fail, and write no other row.
-/

namespace TripArchive

namespace Segment

variable {row later last : Segment}

/-- Whether two states of a row have the same start. -/
structure SameStart (row later : Segment) : Prop where
  position : later.startPosition = row.startPosition
  estimate : later.startEstimate = row.startEstimate
  dropped : later.droppedData = row.droppedData

theorem SameStart.refl (row : Segment) : row.SameStart row := ⟨rfl, rfl, rfl⟩

theorem SameStart.trans (hfirst : row.SameStart later) (hsecond : later.SameStart last) :
    row.SameStart last where
  position := hsecond.position.trans hfirst.position
  estimate := hsecond.estimate.trans hfirst.estimate
  dropped := hsecond.dropped.trans hfirst.dropped

/-- The start of a row is unknown if it has neither a position nor an estimate. -/
theorem startUnknown_iff :
    row.startUnknown = true ↔ row.startPosition = none ∧ row.startEstimate = none := by
  rw [startUnknown, Bool.and_eq_true, Option.isNone_iff_eq_none, Option.isNone_iff_eq_none]

/-- The start of a row stays known as long as it is the same. -/
theorem SameStart.startUnknown_eq (h : row.SameStart later) :
    later.startUnknown = row.startUnknown := by
  unfold startUnknown
  rw [h.position, h.estimate]

end Segment

namespace Store

variable {store later : Store} {token : Int} {row : Segment} {event : SegmentEvent}
  {vehicle : Vehicle}

/-- How a new row of a vehicle has its start. -/
inductive PlacedOnOpening (store : Store) (token : Int) : Option Point → Segment → Prop
  /-- Without a reported start it has none. -/
  | unreported {row : Segment} (hposition : row.startPosition = none)
      (hestimate : row.startEstimate = none) (hdropped : row.droppedData = false) :
      PlacedOnOpening store token none row
  /-- It continues the segment that ended last, if that ended near the report. -/
  | continued {row prior : Segment} {finish : Instant} {reported ended : Point}
      (hlast : store.EndedLast token prior finish) (hended : prior.endPosition = some ended)
      (hnear : Point.near ended reported = true) (hposition : row.startPosition = none)
      (hestimate : row.startEstimate = some ended) (hdropped : row.droppedData = true) :
      PlacedOnOpening store token (some reported) row
  /-- Otherwise it starts at the report. -/
  | literal {row : Segment} {reported : Point}
      (hfar : ∀ prior finish ended, store.EndedLast token prior finish →
        prior.endPosition = some ended → Point.near ended reported = false)
      (hposition : row.startPosition = some reported) (hestimate : row.startEstimate = none)
      (hdropped : row.droppedData = false) : PlacedOnOpening store token (some reported) row

/-- Which estimate a row without a start gets from the report of its complete event. -/
inductive PlacedLate (store : Store) (token : Int) : Option Point → Option Point → Prop
  | unreported : PlacedLate store token none none
  /-- If no segment of the vehicle has ended, the report is the estimate. -/
  | alone {reported : Point} (hnone : store.NoneEnded token) :
      PlacedLate store token (some reported) (some reported)
  /-- It is where the segment ended that ended last, if that is near the report. -/
  | continued {prior : Segment} {finish : Instant} {reported ended : Point}
      (hlast : store.EndedLast token prior finish) (hended : prior.endPosition = some ended)
      (hnear : Point.near ended reported = true) :
      PlacedLate store token (some reported) (some ended)
  /-- Otherwise there is none. -/
  | lost {prior : Segment} {finish : Instant} {reported : Point}
      (hlast : store.EndedLast token prior finish)
      (hfar : ∀ ended, prior.endPosition = some ended → Point.near ended reported = false) :
      PlacedLate store token (some reported) none

/-- How a row is placed is a matter of its start. -/
theorem PlacedOnOpening.sameStart {start : Option Point} {other : Segment}
    (h : store.PlacedOnOpening token start row) (hsame : row.SameStart other) :
    store.PlacedOnOpening token start other := by
  cases h with
  | unreported hposition hestimate hdropped =>
    exact .unreported (hsame.position.trans hposition) (hsame.estimate.trans hestimate)
      (hsame.dropped.trans hdropped)
  | continued hlast hended hnear hposition hestimate hdropped =>
    exact .continued hlast hended hnear (hsame.position.trans hposition)
      (hsame.estimate.trans hestimate) (hsame.dropped.trans hdropped)
  | literal hfar hposition hestimate hdropped =>
    exact .literal hfar (hsame.position.trans hposition) (hsame.estimate.trans hestimate)
      (hsame.dropped.trans hdropped)

/-- A new row that is reported near the end of the segment that ended last continues it. -/
theorem PlacedOnOpening.continues {prior : Segment} {reported ended : Point}
    (h : store.PlacedOnOpening token (some reported) row) (hdistinct : store.DistinctEnds token)
    (hprior : store.prior? token = some prior) (hended : prior.endPosition = some ended)
    (hnear : Point.near ended reported = true) :
    row.startPosition = none ∧ row.startEstimate = some ended ∧ row.droppedData = true := by
  cases h with
  | continued hlast hplace _ hposition hestimate hdropped =>
    rw [hlast.prior?_eq hdistinct] at hprior
    cases hprior
    rw [hended] at hplace
    cases hplace
    exact ⟨hposition, hestimate, hdropped⟩
  | literal hfar =>
    obtain ⟨finish, hlast⟩ := endedLast_of_prior? hprior
    rw [hfar prior finish ended hlast hended] at hnear
    cases hnear

/-- A late report near the end of the segment that ended last leads to that end. -/
theorem PlacedLate.continues {prior : Segment} {reported ended : Point} {estimate : Option Point}
    (h : store.PlacedLate token (some reported) estimate) (hdistinct : store.DistinctEnds token)
    (hprior : store.prior? token = some prior) (hended : prior.endPosition = some ended)
    (hnear : Point.near ended reported = true) : estimate = some ended := by
  cases h with
  | alone hnone =>
    rw [prior?_eq_none_iff.mpr hnone] at hprior
    cases hprior
  | continued hlast hplace =>
    rw [hlast.prior?_eq hdistinct] at hprior
    cases hprior
    rw [← hplace, hended]
  | lost hlast hfar =>
    rw [hlast.prior?_eq hdistinct] at hprior
    cases hprior
    rw [hfar ended hended] at hnear
    cases hnear

/-- The row that an event opens is placed as it should. -/
theorem placedOnOpening_opening (hdistinct : store.DistinctEnds vehicle.token) :
    store.PlacedOnOpening vehicle.token event.start.location (store.opening event vehicle) := by
  unfold opening
  cases hstart : event.start.location with
  | none =>
    rw [Placement.resolve_none]
    exact .unreported rfl rfl rfl
  | some reported =>
    unfold Placement.resolve
    cases hplace : (store.prior? vehicle.token).bind Segment.endPosition with
    | none =>
      refine .literal (fun prior finish ended hlast hended => ?_) rfl rfl rfl
      rw [hlast.prior?_eq hdistinct, Option.bind_some, hended] at hplace
      cases hplace
    | some place =>
      obtain ⟨prior, hprior, hended⟩ := Option.bind_eq_some_iff.mp hplace
      obtain ⟨finish, hlast⟩ := endedLast_of_prior? hprior
      split
      · next hnear => exact .continued hlast hended hnear rfl rfl rfl
      · next hfar =>
        refine .literal (fun other finish ended hother hend => ?_) rfl rfl rfl
        rw [hother.unique hdistinct hlast, hended] at hend
        cases hend
        exact Bool.eq_false_iff.mpr hfar

/-- The estimate of a late start is placed as it should. -/
theorem placedLate_lateEstimate (store : Store) (token : Int) (reported : Point) :
    store.PlacedLate token (some reported) (lateEstimate (store.prior? token) reported) := by
  cases hprior : store.prior? token with
  | none => exact .alone (prior?_eq_none_iff.mp hprior)
  | some prior =>
    obtain ⟨finish, hlast⟩ := endedLast_of_prior? hprior
    cases hestimate : lateEstimate (some prior) reported with
    | some ended =>
      obtain ⟨hended, hnear⟩ := Option.filter_eq_some_iff.mp hestimate
      exact .continued hlast hended hnear
    | none =>
      refine .lost hlast fun ended hended => ?_
      have hfar := Option.filter_eq_none_iff.mp hestimate ended hended
      exact Bool.eq_false_iff.mpr hfar

end Store

namespace Processor

open Handler

variable {processor : Processor} {event : SegmentEvent} {finish : Endpoint} {vehicle : Vehicle}
  {store between later : Store} {row loaded : Segment} {trace : List Answered}
  {result : Except SegmentError Unit}

/-- Placing a late start by itself gives a row without a start the estimate that it should have, or
fails; it changes nothing. -/
theorem ends_placeLate {start : Option Point} {placed : Segment}
    (hunknown : loaded.startUnknown = true) (hdropped : loaded.droppedData = false)
    (hends : (placeLate loaded start).Ends Store.Answers store trace (.ok placed) later) :
    placed.id = loaded.id ∧ store.PlacedLate loaded.vehicleToken start placed.startEstimate ∧
      (placed.droppedData = true ↔ placed.startEstimate ≠ none) := by
  have hnone : loaded.startEstimate = none := (Segment.startUnknown_iff.mp hunknown).2
  cases start with
  | none =>
    cases hends
    rw [hnone, hdropped]
    exact ⟨rfl, .unreported, by simp⟩
  | some reported =>
    unfold placeLate at hends
    simp only [hunknown, if_true] at hends
    rcases Ends.of_bind hends with ⟨_, he, _⟩ | ⟨_, _, prior, between, rfl, hread, hplaced⟩
    · cases he
    obtain ⟨rfl, hprior | ⟨_, he⟩⟩ := ends_priorSegment hread
    case inr => cases he
    have hlate := between.placedLate_lateEstimate loaded.vehicleToken reported
    cases hprior
    split at hplaced
    · next hestimate =>
      cases hplaced
      rw [hestimate] at hlate
      rw [hnone, hdropped]
      exact ⟨rfl, hlate, by simp⟩
    · next estimate hestimate =>
      cases hplaced
      rw [hestimate] at hlate
      exact ⟨rfl, hlate, by simp⟩

/-- Closing by itself succeeds on the row of its segment, which gets the start that was placed. -/
theorem ends_closing_ok
    (hends : (processor.closing event finish loaded).Ends Store.Answers store trace (.ok ())
      later) :
    ∃ first placed key archiveId current,
      (placeLate loaded event.start.location).Ends Store.Answers store first (.ok placed) store ∧
      store.segment? placed.id = some current ∧
      later.segment? placed.id = some (current.complete (completion finish placed key archiveId)) ∧
      ∀ id, id ≠ placed.id → later.segment? id = store.segment? id := by
  rcases Ends.of_bind hends with ⟨_, he, _⟩ | ⟨first, _, placed, between, rfl, hplace, hrest⟩
  · cases he
  obtain rfl := ends_of_only hplace (only_reads_placeLate loaded _)
  cases hrest with
  | @call _ _ key _ drawn _ _ _ hdraw hfinish =>
    obtain rfl : drawn = between := hdraw.unchanged rfl
    rcases Ends.of_bind hfinish with ⟨_, he, _⟩ | ⟨_, _, archiveId, archived, rfl, harchive, hclose⟩
    · cases he
    obtain rfl := ends_of_only harchive (only_reads_archive processor _ placed _ key)
    obtain ⟨answer, hanswer, _, hresult⟩ := hclose.of_ask
    cases answer with
    | error e => cases hresult
    | ok =>
      have hstep := hanswer.rowStep placed.id
      generalize hbefore : archived.segment? placed.id = before at hstep
      generalize hafter : later.segment? placed.id = after at hstep
      cases hstep with
      | closed current _ _ =>
        refine ⟨first, placed, key, archiveId, current, hplace, hbefore, hafter, fun id hid => ?_⟩
        have hother := hanswer.rowStep id
        generalize archived.segment? id = before at hother ⊢
        generalize later.segment? id = after at hother ⊢
        cases hother with
        | closed => exact absurd rfl hid
        | kept => rfl
      | kept _ _ _ hcloses => simp [Answered.closes] at hcloses

/-- A begin event by itself opens the row that the tables determine, or fails and changes
nothing. -/
theorem ends_begin_cases
    (hends : (begin event).Ends Store.Answers store trace result later) :
    later = store ∧ (∃ e, result = .error e) ∨
      result = .ok () ∧ ∃ row, store.Opens event row later := by
  rcases Ends.of_bind hends with ⟨e, rfl, hread⟩ | ⟨_, _, existing, between, rfl, hread, hrest⟩
  · exact Or.inl ⟨(ends_getSegment hread).1, e, rfl⟩
  obtain ⟨rfl, _⟩ := ends_getSegment hread
  split at hrest
  · cases hrest
    exact Or.inl ⟨rfl, _, rfl⟩
  · rcases Ends.of_bind hrest with ⟨e, rfl, hopen⟩ | ⟨_, _, segment, last, rfl, hopen, hdone⟩
    · rcases ends_openSegment hopen with ⟨hlater, _⟩ | ⟨_, hok, _⟩
      · exact Or.inl ⟨hlater, e, rfl⟩
      · cases hok
    · cases hdone
      rcases ends_openSegment hopen with ⟨_, e, he⟩ | ⟨row, _, hopens⟩
      · cases he
      · exact Or.inr ⟨rfl, row, hopens⟩

/-- A complete event by itself fails and changes nothing, or it closes the row that is there or the
one that it opened. -/
theorem ends_complete_cases (hfinish : event.finish = some finish)
    (hends : (processor.complete event).Ends Store.Answers store trace result later) :
    later = store ∧ (∃ e, result = .error e) ∨ ∃ loaded between second,
      (between = store ∧ store.segment? event.id = some loaded ∨
        store.Opens event loaded between) ∧
      (processor.closing event finish loaded).Ends Store.Answers between second result later := by
  rw [complete_eq_closing processor hfinish] at hends
  rcases Ends.of_bind hends with
    ⟨e, rfl, hload⟩ | ⟨_, second, loaded, between, rfl, hload, hclosing⟩
  · rcases ends_loadOpen hload with ⟨hlater, _⟩ | ⟨_, hok, _⟩
    · exact Or.inl ⟨hlater, e, rfl⟩
    · cases hok
  · rcases ends_loadOpen hload with ⟨_, _, he⟩ | ⟨row, hrow, hloaded⟩
    · cases he
    · cases hrow
      exact Or.inr ⟨loaded, between, second, hloaded, hclosing⟩

/-- The row that an event opens needs no late start. -/
theorem placeLate_opening (store : Store) (event : SegmentEvent) (finish : Endpoint)
    (vehicle : Vehicle) : placeLate (store.opening event vehicle) event.start.location =
      done (store.opening event vehicle) :=
  Contest.placeLate_opened ⟨event, finish, vehicle,
    (store.prior? vehicle.token).bind Segment.endPosition, Run.filled 0, none⟩

/-- Closing the row that an event just opened by itself leaves it there with its start. -/
theorem ends_closing_opened (hopens : store.Opens event row between)
    (hvehicle : store.vehicle? event.deviceId = some vehicle)
    (hends : (processor.closing event finish row).Ends Store.Answers between trace result later) :
    (∃ kept, later.segment? event.id = some kept ∧ row.SameStart kept ∧
      kept.vehicleToken = row.vehicleToken) ∧
    ∀ id, id ≠ event.id → later.segment? id = between.segment? id := by
  cases result with
  | error e =>
    rw [ends_closing hends]
    exact ⟨⟨row, hopens.segment?, .refl row, rfl⟩, fun _ _ => rfl⟩
  | ok =>
    obtain ⟨first, placed, key, archiveId, current, hplace, hcurrent, hclosed, hothers⟩ :=
      ends_closing_ok hends
    rw [hopens.eq_opening hvehicle, placeLate_opening store event finish vehicle] at hplace
    cases hplace
    rw [← hopens.eq_opening hvehicle] at hcurrent hclosed hothers
    have hid : row.id = event.id := Store.id_of_segment? hopens.segment?
    rw [hid] at hcurrent hclosed hothers
    rw [hopens.segment?] at hcurrent
    cases hcurrent
    exact ⟨⟨_, hclosed, ⟨rfl, rfl, rfl⟩, rfl⟩, hothers⟩

/-- A begin or complete event of a new segment by itself fails and changes nothing, or the row of
the segment is there with the start that it should have; no other row is touched. -/
theorem ends_opening {request : Request} (hevent : request.event? = some event)
    (hfresh : store.segment? event.id = none)
    (hvehicle : store.vehicle? event.deviceId = some vehicle)
    (hdistinct : store.DistinctEnds vehicle.token)
    (hends : (request.handler processor).Ends Store.Answers store trace result later) :
    later = store ∧ (∃ e, result = .error e) ∨
      (∃ row, later.segment? event.id = some row ∧ row.vehicleToken = vehicle.token ∧
        store.PlacedOnOpening vehicle.token event.start.location row) ∧
      ∀ id, id ≠ event.id → later.segment? id = store.segment? id := by
  cases request with
  | vehicle _ => cases hevent
  | begin _ =>
    cases hevent
    rcases ends_begin_cases hends with hfailed | ⟨_, row, hopens⟩
    · exact Or.inl hfailed
    · have hrow := hopens.eq_opening hvehicle
      refine Or.inr ⟨⟨row, hopens.segment?, ?_, ?_⟩, fun id hid => hopens.segment?_of_ne hid⟩
      · rw [hrow]
        rfl
      · rw [hrow]
        exact Store.placedOnOpening_opening hdistinct
  | complete _ =>
    cases hevent
    cases hfinish : event.finish with
    | none =>
      change (processor.complete event).Ends _ _ _ _ _ at hends
      unfold complete at hends
      rw [hfinish] at hends
      cases hends
      exact Or.inl ⟨rfl, _, rfl⟩
    | some finish =>
      rcases ends_complete_cases hfinish hends with
        hfailed | ⟨row, between, _, ⟨rfl, hrow⟩ | hopens, hclosing⟩
      · exact Or.inl hfailed
      · rw [hfresh] at hrow
        cases hrow
      · obtain ⟨⟨kept, hkept, hsame, htoken⟩, hothers⟩ :=
          ends_closing_opened hopens hvehicle hclosing
        rw [hopens.eq_opening hvehicle] at hsame htoken
        refine Or.inr ⟨⟨kept, hkept, htoken,
          (Store.placedOnOpening_opening hdistinct).sameStart hsame⟩, fun id hid => ?_⟩
        rw [hothers id hid, hopens.segment?_of_ne hid]

/-- A complete event by itself that succeeds on an open row without a start closes it with the
estimate that it should have, and touches no other row. -/
theorem ends_complete_late (hrow : store.segment? event.id = some row)
    (hunknown : row.startUnknown = true) (hdropped : row.droppedData = false)
    (hends : (processor.complete event).Ends Store.Answers store trace (.ok ()) later) :
    (∃ closed, later.segment? event.id = some closed ∧ closed.isClosed = true ∧
      closed.startPosition = none ∧
      store.PlacedLate row.vehicleToken event.start.location closed.startEstimate ∧
      (closed.droppedData = true ↔ closed.startEstimate ≠ none)) ∧
    ∀ id, id ≠ event.id → later.segment? id = store.segment? id := by
  cases hfinish : event.finish with
  | none =>
    unfold complete at hends
    rw [hfinish] at hends
    cases hends
  | some finish =>
    rcases ends_complete_cases hfinish hends with
      ⟨_, _, he⟩ | ⟨loaded, between, _, ⟨rfl, hloaded⟩ | hopens, hclosing⟩
    · cases he
    · rw [hrow] at hloaded
      cases hloaded
      obtain ⟨_, placed, key, archiveId, current, hplace, hcurrent, hclosed, hothers⟩ :=
        ends_closing_ok hclosing
      obtain ⟨hid, hlate, hmark⟩ := ends_placeLate hunknown hdropped hplace
      rw [hid, Store.id_of_segment? hrow] at hcurrent hclosed hothers
      rw [hrow] at hcurrent
      cases hcurrent
      have hnone : row.startPosition = none := (Segment.startUnknown_iff.mp hunknown).1
      exact ⟨⟨_, hclosed, rfl, hnone, hlate, hmark⟩, hothers⟩
    · rw [hopens.fresh] at hrow
      cases hrow

/-- A begin event of a new segment opens its row if the tables answer. -/
theorem run_begin_of_fresh (outcomes : Outcomes)
    (hvehicle : store.vehicle? event.deviceId = some vehicle)
    (hfresh : store.segment? event.id = none) :
    (begin event).run (serveBy outcomes.answer) store = (.ok (),
      { store with segments := store.segments ++ [store.opening event vehicle] }) := by
  have hopen := run_openSegment outcomes hvehicle hfresh
  show ((Handler.getSegment event.id).bind _).run (serveBy outcomes.answer) store = _
  rw [run_bind, run_getSegment, hfresh]
  show ((openSegment event).bind _).run (serveBy outcomes.answer) store = _
  rw [run_bind, hopen]
  rfl

/-- A complete event of a new segment opens its row if the tables answer, whatever becomes of its
telemetry. -/
theorem run_complete_opens (processor : Processor) (outcomes : Outcomes)
    (hfinish : event.finish = some finish)
    (hvehicle : store.vehicle? event.deviceId = some vehicle)
    (hfresh : store.segment? event.id = none) :
    ∃ row, ((processor.complete event).run (serveBy outcomes.answer) store).2.segment? event.id =
      some row := by
  rw [run_complete_of_fresh processor hfinish hvehicle hfresh]
  have hopens := Store.opens_opening hfresh hvehicle
  obtain ⟨trace, hends⟩ := outcomes.ends
    (processor.closing event finish (store.opening event vehicle))
    { store with segments := store.segments ++ [store.opening event vehicle] }
  obtain ⟨⟨kept, hkept, _⟩, _⟩ := ends_closing_opened hopens hvehicle hends
  exact ⟨kept, hkept⟩

end Processor

end TripArchive
