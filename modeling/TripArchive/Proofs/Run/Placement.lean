import TripArchive.Proofs.Race.Outcome
import TripArchive.Proofs.Run.RowShape
import TripArchive.Proofs.Run.Starts

/-!
# The starts of rows along a run

Whatever run led to the tables, a new row has its start as the segment of its vehicle that ended
last determines it, a start that is known stays as it is, and a row without a start gets the
estimate that the same segment allows when it is completed (`starts_placed`).
-/

namespace TripArchive.Run

open Handler Processor

variable {processor : Processor} {run : Run}

/-- Starts are placed by the segment that ended last. From the tables of any reachable run in which
no two segments of the vehicle ended at once:

* a begin or complete event of a new segment opens a row if the tables answer, and whichever calls
  fail, either nothing changed or the row is there with the start that it should have;
* a start that is known is the same in every later run, whoever completes the row;
* a complete event that succeeds on a row without a start leaves the estimate that it should.

No other row is touched by such an event. -/
theorem starts_placed (hrun : Reachable processor run) :
    (∀ (request : Request) (event : SegmentEvent) (vehicle : Vehicle),
      request.event? = some event → run.store.segment? event.id = none →
      run.store.vehicle? event.deviceId = some vehicle → run.store.DistinctEnds vehicle.token →
      (∀ outcomes : Outcomes, request = .begin event ∨ event.finish ≠ none →
        ∃ row, ((request.handler processor).run (serveBy outcomes.answer)
          run.store).2.segment? event.id = some row) ∧
      ∀ trace result later,
        (request.handler processor).Ends Store.Answers run.store trace result later →
        later = run.store ∧ (∃ e, result = .error e) ∨
          (∃ row, later.segment? event.id = some row ∧ row.vehicleToken = vehicle.token ∧
            run.store.PlacedOnOpening vehicle.token event.start.location row) ∧
          ∀ id, id ≠ event.id → later.segment? id = run.store.segment? id) ∧
    (∀ later id row, Leads processor run later → run.store.segment? id = some row →
      row.startUnknown = false →
      ∃ kept, later.store.segment? id = some kept ∧ row.SameStart kept) ∧
    ∀ (event : SegmentEvent) (row : Segment), run.store.segment? event.id = some row →
      row.startUnknown = true → run.store.DistinctEnds row.vehicleToken →
      ∀ trace later, (processor.complete event).Ends Store.Answers run.store trace (.ok ()) later →
        (∃ closed, later.segment? event.id = some closed ∧ closed.isClosed = true ∧
          closed.startPosition = none ∧
          run.store.PlacedLate row.vehicleToken event.start.location closed.startEstimate ∧
          (closed.droppedData = true ↔ closed.startEstimate ≠ none)) ∧
        ∀ id, id ≠ event.id → later.segment? id = run.store.segment? id := by
  refine ⟨?_, ?_, ?_⟩
  · intro request event vehicle hevent hfresh hvehicle hdistinct
    refine ⟨fun outcomes hopens => ?_, fun trace result later hends =>
      ends_opening hevent hfresh hvehicle hdistinct hends⟩
    cases request with
    | vehicle _ => cases hevent
    | begin _ =>
      cases hevent
      have hbegin := run_begin_of_fresh outcomes hvehicle hfresh
      refine ⟨run.store.opening event vehicle, ?_⟩
      show ((begin event).run (serveBy outcomes.answer) run.store).2.segment? event.id = _
      rw [hbegin]
      exact (Store.opens_opening hfresh hvehicle).segment?
    | complete _ =>
      cases hevent
      have hfinish := hopens.resolve_left nofun
      obtain ⟨finish, hfinish⟩ := Option.ne_none_iff_exists'.mp hfinish
      exact run_complete_opens processor outcomes hfinish hvehicle hfresh
  · intro later id row hleads hrow hknown
    exact hleads.start_kept hrun hrow hknown
  · intro event row hrow hunknown _ trace later hends
    have hshaped := hrun.shapely event.id row hrow
    have hnone : row.startEstimate = none := (Segment.startUnknown_iff.mp hunknown).2
    have hdropped : row.droppedData = false := by
      rw [Bool.eq_false_iff]
      intro hmarked
      exact hshaped.dropped.mp hmarked hnone
    exact ends_complete_late hrow hunknown hdropped hends

/-- The complete event of a noon ride that reports the start at the depot. -/
def noonRide : SegmentEvent :=
  ⟨"other", "device", true, ⟨⟨43200, 0⟩, some depot⟩, some ⟨⟨46800, 0⟩, none⟩⟩

/-- After the morning ride the noon ride is begun without a start. -/
def afterBlindBegin : List Move :=
  morning ++ [.take (.begin { noonRide with start := ⟨⟨43200, 0⟩, none⟩ }), .reply 2 .tables,
    .reply 2 .tables, .reply 2 .tables]

/-- A noon ride that sets out where the morning ride ended continues it, whether its start is
reported at once or late. -/
theorem noon_ride_placed :
    (∃ row, ((begin (depotRide ⟨43200, 0⟩)).run (serveBy Race.steady.outcomes.answer)
        (start.play offline morning).store).2.segment? "other" = some row ∧
      row.startPosition = none ∧ row.startEstimate = some depot ∧ row.droppedData = true) ∧
    ∃ closed, ((offline.complete noonRide).run (serveBy Race.steady.outcomes.answer)
        (start.play offline afterBlindBegin).store).2.segment? "other" = some closed ∧
      closed.startPosition = none ∧ closed.startEstimate = some depot ∧
      closed.droppedData = true := by
  have hnear : Point.near depot depot = true := by decide +kernel
  constructor
  · have hprior : (start.play offline morning).store.prior? 7 = some morningRow := by
      decide +kernel
    have hdistinct : (start.play offline morning).store.DistinctEnds 7 := by
      unfold Store.DistinctEnds
      decide +kernel
    obtain ⟨hopens, hplaces⟩ := (starts_placed (reachable_play offline morning)).1
      (.begin (depotRide ⟨43200, 0⟩)) (depotRide ⟨43200, 0⟩) ⟨7, "device"⟩ rfl rfl rfl hdistinct
    obtain ⟨row, hrow⟩ := hopens Race.steady.outcomes (Or.inl rfl)
    obtain ⟨trace, hends⟩ := Race.steady.outcomes.ends
      (begin (depotRide ⟨43200, 0⟩)) (start.play offline morning).store
    refine ⟨row, hrow, ?_⟩
    obtain ⟨_, e, he⟩ | ⟨⟨placed, hthere, _, hplaced⟩, _⟩ := hplaces _ _ _ hends
    · cases he
    · obtain rfl : row = placed := Option.some.inj (hrow.symm.trans hthere)
      exact hplaced.continues hdistinct hprior rfl hnear
  · have hprior : (start.play offline afterBlindBegin).store.prior? 7 = some morningRow := by
      decide +kernel
    have hdistinct : (start.play offline afterBlindBegin).store.DistinctEnds 7 := by
      unfold Store.DistinctEnds
      decide +kernel
    have hrow : (start.play offline afterBlindBegin).store.segment? "other" =
        some (Segment.opened "other" 7 ⟨43200, 0⟩) := by decide +kernel
    obtain ⟨trace, hends⟩ := Race.steady.outcomes.ends (offline.complete noonRide)
      (start.play offline afterBlindBegin).store
    have hok : ((offline.complete noonRide).run (serveBy Race.steady.outcomes.answer)
        (start.play offline afterBlindBegin).store).1 = .ok () := by
      decide +kernel
    rw [hok] at hends
    obtain ⟨⟨closed, hclosed, _, hposition, hlate, hmark⟩, _⟩ :=
      (starts_placed (reachable_play offline afterBlindBegin)).2.2 noonRide _ hrow rfl hdistinct
        trace _ hends
    have hestimate : closed.startEstimate = some depot :=
      hlate.continues hdistinct hprior rfl hnear
    refine ⟨closed, hclosed, hposition, hestimate, hmark.mpr ?_⟩
    rw [hestimate]
    nofun

end TripArchive.Run
