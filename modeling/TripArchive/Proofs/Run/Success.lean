import TripArchive.Proofs.Package.Limits
import TripArchive.Proofs.Race.Outcome
import TripArchive.Proofs.Run.Fits
import TripArchive.Proofs.Run.Uploads
import TripArchive.Proofs.Segment.Course

/-!
# When a completion succeeds

With healthy collaborators a complete event fails for one of four reasons: it reports no end, its
segment is closed, the segment is new and its device has no vehicle, or its telemetry is to be
archived and the identifier cannot be a tag. `complete_succeeds_iff` says that there is no other, in
any reachable tables, and what a success leaves.
-/

namespace TripArchive

namespace Handler

variable {α : Type} {h : Handler α} {store later : Store} {trace : List Answered}
  {result : Except SegmentError α} {answered : Answered} {id : String} {row : Segment}

/-- The tables only grow while a handler is at work. -/
theorem Ends.grows (hends : h.Ends Store.Answers store trace result later) : store.Grows later := by
  induction hends with
  | done | fail => exact .refl _
  | call hanswer _ ih => exact hanswer.grows.trans ih

/-- A row that a handler was shown is there when it ends, open or completed. -/
theorem Ends.shown (hends : h.Ends Store.Answers store trace result later) (hmem : answered ∈ trace)
    (hshows : answered.Shows id row) :
    ∃ kept, later.segment? id = some kept ∧ row.Becomes kept := by
  induction hends with
  | done | fail => cases hmem
  | call hanswer hnext ih =>
    rcases List.mem_cons.mp hmem with rfl | hlater
    · exact hnext.grows.rows id row (hanswer.shows hshows)
    · exact ih hlater

end Handler

/-- The token and the start of a segment that is loaded can be held. -/
theorem Store.Loads.fits {store between : Store} {event : SegmentEvent} {loaded : Segment}
    (hloads : store.Loads event loaded between) (hstore : store.Fits) (hkeyed : store.Keyed)
    (hevent : event.Fits) : IsInt64 loaded.vehicleToken ∧ loaded.startTime.InCalendar := by
  rcases hloads.found with ⟨_, hrow⟩ | hopens
  · have hmem := Store.mem_of_segment? hrow
    exact ⟨hstore.token hkeyed hmem, hstore.starts loaded hmem⟩
  · obtain ⟨vehicle, hvehicle, rfl⟩ := hopens.placed
    exact ⟨hstore.tokens vehicle (List.mem_of_find?_eq_some hvehicle), hevent.start⟩

namespace Processor

open Handler

variable {processor : Processor} {event : SegmentEvent} {store later : Store}
  {trace : List Answered}

/-- What a complete event needs so that it can succeed. -/
structure Completable (processor : Processor) (store : Store) (event : SegmentEvent) : Prop where
  reported : event.finish ≠ none
  /-- The segment is not closed. -/
  unclosed : ∀ row, store.segment? event.id = some row → row.isClosed = false
  /-- The segment is there or can be opened. -/
  located : store.segment? event.id ≠ none ∨ store.vehicle? event.deviceId ≠ none
  /-- If telemetry is archived, the identifier can be a tag. -/
  label : processor.options.fetch = true →
    1 ≤ event.id.utf8ByteSize ∧ event.id.utf8ByteSize ≤ 3072

/-- With healthy collaborators a segment is archived unless its identifier cannot be a tag. -/
theorem exists_archived_iff (processor : Processor) (healthy : Healthy) (device : String)
    {segment : Segment} {finish : Instant} (htoken : IsInt64 segment.vehicleToken)
    (hstart : segment.startTime.InCalendar) (hfinish : finish.InCalendar) :
    (∃ archiveId, processor.archived healthy.outcomes device segment finish = .ok archiveId) ↔
      (processor.options.fetch = true → Tag.Fits Tag.maxValueBytes segment.id) := by
  have hpacks : (∃ item, processor.pack
      (healthy.telemetry ⟨device, segment.startTime, finish⟩) healthy.key healthy.nonce
      (label segment finish) = .ok item) ↔
        Tag.WithinLimits ((label segment finish).tags healthy.nonce) := Package.exists_pack_iff
  rw [Package.withinLimits_tags_iff htoken hstart hfinish] at hpacks
  unfold archived
  cases processor.options.fetch with
  | false => simp
  | true =>
    rw [if_pos rfl, forall_prop_of_true rfl]
    refine Iff.trans ?_ hpacks
    show (∃ archiveId, ((processor.pack
      (healthy.telemetry ⟨device, segment.startTime, finish⟩) healthy.key healthy.nonce
      (label segment finish)).mapError SegmentError.package >>= _) = Except.ok archiveId) ↔ _
    cases processor.pack (healthy.telemetry ⟨device, segment.startTime, finish⟩)
        healthy.key healthy.nonce (label segment finish) with
    | error e => exact ⟨nofun, nofun⟩
    | ok item =>
      refine ⟨fun _ => ⟨item, rfl⟩, fun _ => ?_⟩
      cases processor.options.upload with
      | false => exact ⟨none, rfl⟩
      | true => exact ⟨some item.id, rfl⟩

/-- With healthy collaborators a complete event succeeds exactly if it has what it needs. -/
theorem run_complete_ok_iff (processor : Processor) (healthy : Healthy) (hstore : store.Fits)
    (hkeyed : store.Keyed) (hevent : event.Fits) :
    ((processor.complete event).run (serveBy healthy.outcomes.answer) store).1 = .ok () ↔
      processor.Completable store event := by
  cases hfinish : event.finish with
  | none =>
    have hfailed : processor.complete event = fail (.missingEnd event.id) := by
      unfold complete
      rw [hfinish]
    rw [hfailed]
    exact ⟨nofun, fun h => absurd hfinish h.reported⟩
  | some finish =>
    rw [run_complete processor _ _ hfinish]
    cases hload : store.load event with
    | error e =>
      refine ⟨nofun, fun h => ?_⟩
      obtain ⟨_, _, hloaded⟩ := Store.exists_load_iff.mpr ⟨h.unclosed, h.located⟩
      rw [hload] at hloaded
      cases hloaded
    | ok found =>
      obtain ⟨loaded, between⟩ := found
      have hloads := Store.loads_of_load hload
      obtain ⟨hunclosed, hlocated⟩ := Store.exists_load_iff.mp ⟨loaded, between, hload⟩
      obtain ⟨htoken, hstart⟩ := hloads.fits hstore hkeyed hevent
      have hlabel := exists_archived_iff processor healthy event.deviceId htoken hstart
        (hevent.finish finish hfinish)
      rw [hloads.id] at hlabel
      dsimp only
      cases harchived : processor.archived healthy.outcomes event.deviceId loaded finish.time with
      | error e =>
        refine ⟨nofun, fun h => ?_⟩
        obtain ⟨_, hok⟩ := hlabel.mpr h.label
        rw [harchived] at hok
        cases hok
      | ok archiveId =>
        refine ⟨fun _ => ⟨?_, hunclosed, hlocated, hlabel.mp ⟨_, harchived⟩⟩, fun _ => rfl⟩
        rw [hfinish]
        nofun

/-- A complete event that succeeds has closed the row of its segment with its end. -/
theorem closed_of_run_complete {outcomes : Outcomes}
    (hrun : (processor.complete event).run (serveBy outcomes.answer) store = (.ok (), later)) :
    ∃ finish row, event.finish = some finish ∧ later.segment? event.id = some row ∧
      row.endTime = some finish.time ∧ row.endPosition = finish.location := by
  cases hfinish : event.finish with
  | none =>
    unfold complete at hrun
    rw [hfinish] at hrun
    cases hrun
  | some finish =>
    rw [run_complete processor _ _ hfinish] at hrun
    cases hload : store.load event with
    | error e =>
      rw [hload] at hrun
      cases hrun
    | ok found =>
      obtain ⟨loaded, between⟩ := found
      have hloads := Store.loads_of_load hload
      rw [hload] at hrun
      dsimp only at hrun
      cases harchived : processor.archived outcomes event.deviceId loaded finish.time with
      | error e =>
        rw [harchived] at hrun
        cases hrun
      | ok archiveId =>
        rw [harchived] at hrun
        cases hrun
        have hclosed := Store.segment?_completing hloads.row hloads.isOpen (completion finish
          (between.placedLate loaded event.start.location) outcomes.key archiveId)
        exact ⟨finish, _, rfl, (congrArg _ hloads.id.symm).trans hclosed, rfl, rfl⟩

/-- What a complete event asks the search index for is the range from the start of its row to its
end, for its device. -/
theorem fetched_range {result : Except SegmentError Unit}
    (hends : (processor.complete event).Ends Store.Answers store trace result later)
    {finish : Endpoint} (hfinish : event.finish = some finish) {row : Segment}
    (hrow : later.segment? event.id = some row) {range : Telemetry.Range}
    {answer : Except Telemetry.Error Bytes} (hmem : ⟨.fetch range, answer⟩ ∈ trace) :
    range = ⟨event.deviceId, row.startTime, finish.time⟩ := by
  obtain ⟨reported, loaded, segment, key, before, after, hreported, ⟨shown, hshown, hshows⟩, _,
    hplaced, hfinishing, hafter, htrace⟩ :=
    (completing_of_path hends.path).finishing .fetch hmem rfl (by decide)
  rw [hfinish] at hreported
  cases hreported
  obtain ⟨kept, hkept, hbecomes⟩ :=
    hends.shown (htrace ▸ List.mem_append_left _ hshown) hshows
  rw [hrow] at hkept
  cases hkept
  obtain ⟨_, _, hstart, _⟩ := hbecomes.identity
  have hsegment : segment.startTime = loaded.startTime := by rw [hplaced]
  rw [hstart, ← hsegment]
  exact hfinishing.range_eq hafter

end Processor

namespace Run

open Handler Processor

variable {processor : Processor} {run : Run} {event : SegmentEvent}

/-- A complete event that is handled by healthy collaborators succeeds exactly if it has what it
needs, whatever run led to the tables. It comes to an end. It succeeds if and only if it reports an
end, its segment is not closed, the segment is there or its device has a vehicle, and, if telemetry
is archived, its identifier has 1 to 3072 bytes. Then the row is closed with exactly its end, and
any telemetry was asked for from the start of the row to that end. -/
theorem complete_succeeds_iff (hrun : Reachable processor run)
    (hrequests : ∀ attempt ∈ run.attempts, attempt.request.Fits) (hevent : event.Fits)
    (healthy : Healthy) :
    (∃ trace result later,
      (processor.complete event).Ends healthy.law run.store trace result later) ∧
    ∀ trace result later, (processor.complete event).Ends healthy.law run.store trace result later →
      (result = .ok () ↔ processor.Completable run.store event) ∧
      (result = .ok () → ∃ finish row, event.finish = some finish ∧
        later.segment? event.id = some row ∧ row.endTime = some finish.time ∧
        row.endPosition = finish.location ∧
        ∀ range answer, ⟨.fetch range, answer⟩ ∈ trace →
          range = ⟨event.deviceId, row.startTime, finish.time⟩) := by
  refine ⟨exists_ends (fun store c => ⟨_, _, rfl⟩) _ _, fun trace result later hends => ?_⟩
  have hresult := hends.run_eq
  constructor
  · rw [← run_complete_ok_iff processor healthy (hrun.fits hrequests) hrun.keyed hevent, hresult]
  · rintro rfl
    obtain ⟨finish, row, hfinish, hrow, htime, hplace⟩ := closed_of_run_complete hresult
    exact ⟨finish, row, hfinish, hrow, htime, hplace, fun range answer hmem =>
      fetched_range (hends.weaken Healthy.answers) hfinish hrow hmem⟩

/-- The device of the rides is known. -/
def minted : List Move := [.take mint, .reply 0 .tables]

/-- A ride whose completion comes first is opened and closed, and its telemetry is that of the
ride. -/
theorem ride_succeeds : ∃ trace later row,
    (uploader.complete ride).Ends Race.steady.law (start.play uploader minted).store trace (.ok ())
      later ∧
    later.segment? "ride" = some row ∧ row.endTime = some ⟨120, 0⟩ ∧ row.endPosition = none ∧
    ∀ range answer, ⟨.fetch range, answer⟩ ∈ trace →
      range = ⟨"device", row.startTime, ⟨120, 0⟩⟩ := by
  have hattempts : (start.play uploader minted).attempts = [⟨mint, .done ()⟩] := rfl
  have hrequests : ∀ attempt ∈ (start.play uploader minted).attempts, attempt.request.Fits := by
    rw [hattempts, List.forall_mem_singleton]
    exact ⟨by decide, by decide⟩
  have hride : ride.Fits := by
    refine ⟨by decide, ?_⟩
    rintro _ ⟨⟩
    decide
  obtain ⟨⟨trace, result, later, hends⟩, hall⟩ :=
    complete_succeeds_iff (reachable_play uploader minted) hrequests hride Race.steady
  obtain ⟨hiff, hafter⟩ := hall trace result later hends
  have hfresh : (start.play uploader minted).store.segment? ride.id = none := rfl
  have hneeds : uploader.Completable (start.play uploader minted).store ride := by
    refine ⟨nofun, fun row hrow => ?_, Or.inr nofun, fun _ => by decide⟩
    rw [hfresh] at hrow
    cases hrow
  obtain rfl := hiff.mpr hneeds
  obtain ⟨finish, row, hfinish, hrow, htime, hplace, hrange⟩ := hafter rfl
  cases hfinish
  exact ⟨trace, later, row, hends, hrow, htime, hplace, hrange⟩

end Run

end TripArchive
