import TripArchive.Proofs.Package.Limits
import TripArchive.Proofs.Race
import TripArchive.Proofs.Race.Handlers
import TripArchive.Proofs.Segment.Bounds

/-!
# One result of a race

A begin and a complete event about one new segment may be handled in any interleaving. The complete
event always succeeds and the segment ends as if it had been handled alone; the begin event ends in
one of three ways, and is acknowledged in each.
-/

namespace TripArchive

/-- What is given before a begin and a complete event about one new segment are handled. -/
structure Rivals (processor : Processor) (store : Store) (first last : SegmentEvent)
    (vehicle : Vehicle) (finish : Endpoint) : Prop where
  keyed : store.Keyed
  /-- The segment is new. -/
  fresh : store.segment? last.id = none
  /-- The device has a vehicle. -/
  registered : store.vehicle? last.deviceId = some vehicle
  sameId : first.id = last.id
  sameDevice : first.deviceId = last.deviceId
  sameStart : first.start = last.start
  /-- The complete event reports an end. -/
  reported : last.finish = some finish
  token : IsInt64 vehicle.token
  startTime : last.start.time.InCalendar
  finishTime : finish.time.InCalendar
  /-- If telemetry is archived, the identifier can be a tag. -/
  label : processor.options.fetch = true →
    1 ≤ last.id.utf8ByteSize ∧ last.id.utf8ByteSize ≤ 3072

namespace Rivals

variable {processor : Processor} {store : Store} {first last : SegmentEvent} {vehicle : Vehicle}
  {finish : Endpoint}

/-- Of a begin event only the segment, its device and its start matter. -/
theorem begin_eq (rivals : Rivals processor store first last vehicle finish) :
    Processor.begin first = Processor.begin last := by
  simp only [Processor.begin, Processor.openSegment, Processor.placed, rivals.sameId,
    rivals.sameDevice, rivals.sameStart]

/-- What two rivals contest under healthy collaborators. -/
def contest (last : SegmentEvent) (finish : Endpoint) (vehicle : Vehicle) (store : Store)
    (healthy : Healthy) (archiveId : Option String) : Contest where
  event := last
  finish := finish
  vehicle := vehicle
  ended := (store.prior? vehicle.token).bind Segment.endPosition
  key := healthy.key
  archiveId := archiveId

/-- Where the tables stand before the rivals are handled. -/
theorem holds (rivals : Rivals processor store first last vehicle finish) (healthy : Healthy)
    (archiveId : Option String) :
    (contest last finish vehicle store healthy archiveId).Holds store where
  keyed := rivals.keyed
  vehicle := rivals.registered
  row := fun _ hrow => nomatch rivals.fresh.symm.trans hrow
  ended := fun _ => rfl

/-- The telemetry of the segment can be archived, if it is to be. -/
theorem exists_archives (rivals : Rivals processor store first last vehicle finish)
    (healthy : Healthy) : ∃ archiveId, Contest.Archives processor healthy
      (contest last finish vehicle store healthy archiveId) := by
  by_cases hfetch : processor.options.fetch = true
  · have hlimits : Tag.WithinLimits (Package.Label.tags
        ⟨vehicle.token, last.id, last.start.time, finish.time⟩ healthy.nonce) :=
      (Package.withinLimits_tags_iff rivals.token rivals.startTime rivals.finishTime).mpr
        (rivals.label hfetch)
    have hpacks : ∃ item, processor.pack
        (healthy.telemetry ⟨last.deviceId, last.start.time, finish.time⟩) healthy.key healthy.nonce
        ⟨vehicle.token, last.id, last.start.time, finish.time⟩ = .ok item :=
      Package.exists_pack_iff.mpr hlimits
    obtain ⟨item, hpack⟩ := hpacks
    refine ⟨if processor.options.upload then some item.id else none, ?_⟩
    unfold Contest.Archives
    rw [if_pos hfetch]
    exact ⟨item, hpack, rfl⟩
  · refine ⟨none, ?_⟩
    unfold Contest.Archives
    rw [if_neg hfetch]
    rfl

/-- The segment is not closed before the rivals are handled. -/
theorem unclosed (rivals : Rivals processor store first last vehicle finish) (healthy : Healthy)
    (archiveId : Option String) : store.segment? last.id ≠
      some (contest last finish vehicle store healthy archiveId).closed := by
  rw [rivals.fresh]
  exact (Option.some_ne_none _).symm

/-- Where the race of the rivals starts: each handler is safe for the other. -/
theorem racing (rivals : Rivals processor store first last vehicle finish) {healthy : Healthy}
    {archiveId : Option String} (harchives : Contest.Archives processor healthy
      (contest last finish vehicle store healthy archiveId)) :
    Race.Racing (contest last finish vehicle store healthy archiveId) healthy
      (fun result _ => Contest.Begun last.id result)
      (fun result later => result = .ok () ∧ later.segment? last.id =
        some (contest last finish vehicle store healthy archiveId).closed)
      ⟨store, Processor.begin first, processor.complete last⟩ := by
  constructor
  · exact rivals.holds healthy archiveId
  · rw [rivals.begin_eq]
    exact Contest.safe_begin (contest last finish vehicle store healthy archiveId) healthy store
  · exact Contest.safe_complete rivals.reported rfl harchives (rivals.unclosed healthy archiveId)

end Rivals

namespace Race

variable {processor : Processor} {store : Store} {first last : SegmentEvent} {vehicle : Vehicle}
  {finish : Endpoint}

/-- A begin and a complete event about one new segment race to one result. Each is handled in a few
calls. However these interleave, the complete event succeeds and leaves exactly one row under the
identifier, the one that it leaves when it is handled alone; so it never fails for a segment that is
gone when it is loaded again. The begin event opens the segment, is refused as a duplicate or finds
the segment closed, and is acknowledged. -/
theorem race_ends_as_alone (rivals : Rivals processor store first last vehicle finish)
    (healthy : Healthy) :
    (Processor.begin first).Within 4 ∧ (processor.complete last).Within 11 ∧
    ∃ alone row, (processor.complete last).run healthy.serve store = (.ok (), alone) ∧
      alone.rows last.id = [row] ∧ row.isClosed = true ∧
      ∀ race, Leads healthy last.id vehicle.token
          ⟨store, Processor.begin first, processor.complete last⟩ race →
        (∀ result, race.first.result? = some result →
          Contest.Begun last.id result ∧ SegmentError.settles result = true) ∧
        (∀ result, race.last.result? = some result →
          result = .ok () ∧ race.store.rows last.id = [row]) ∧
        ∃ ended, Leads healthy last.id vehicle.token race ended ∧
          ended.first.result?.isSome = true ∧ ended.last.result?.isSome = true := by
  refine ⟨Processor.within_begin first, Processor.within_complete processor last, ?_⟩
  obtain ⟨archiveId, harchives⟩ := rivals.exists_archives healthy
  have hstart := rivals.racing harchives
  obtain ⟨hquiet, hresult, hrow⟩ :=
    hstart.last.run hstart.holds.quiet fun hmoves => hmoves.holds.quiet
  refine ⟨_, _, Prod.ext hresult rfl, hquiet.holds.keyed.rows_eq hrow, rfl, ?_⟩
  intro race hleads
  have hrace := hstart.leads (fun _ _ _ h _ => h)
    (fun _ _ _ h hkept => ⟨h.1, hkept.toMoves.closed h.2⟩) hleads
  refine ⟨?_, ?_, exists_ended healthy last.id vehicle.token race⟩
  · intro result hended
    have hbegun := hrace.first.result hended
    refine ⟨hbegun, ?_⟩
    cases hbegun <;> rfl
  · intro result hended
    obtain ⟨hok, hclosed⟩ := hrace.last.result hended
    exact ⟨hok, hrace.holds.keyed.rows_eq hclosed⟩

/-- Collaborators that always answer the same. -/
def steady : Healthy := ⟨Run.filled 1, Run.filled 2, fun _ => [1, 2, 3], fun _ => .blank⟩

/-- The tables with a vehicle whose previous ride has ended. -/
def parked : Store where
  vehicles := [⟨7, "device"⟩]
  segments := [(Segment.opened "earlier" 7 ⟨0, 0⟩).complete
    ⟨⟨30, 0⟩, some ⟨52.5, 13.4⟩, none, false, (Run.filled 3 : Package.SegmentKey).val, none⟩]

/-- The completion of a ride that sets out where the previous one has ended. -/
def onward : SegmentEvent := { Run.ride with start := ⟨⟨60, 0⟩, some ⟨52.5, 13.4⟩⟩ }

/-- A ride that is begun and completed at once ends with one closed row. -/
theorem ride_race_ends :
    ∃ ended, Leads steady "ride" 7
        ⟨parked, Processor.begin { onward with completed := false, finish := none },
          Processor.complete ⟨.stored, Signer.ofSeed (Run.filled 0), ⟨true, true⟩⟩ onward⟩ ended ∧
      ended.first.result?.isSome = true ∧ ended.last.result? = some (.ok ()) ∧
      ∃ row, ended.store.rows "ride" = [row] ∧ row.isClosed = true := by
  have hkeyed : parked.Keyed := ⟨by decide, by decide, by decide, by decide⟩
  have rivals : Rivals ⟨.stored, Signer.ofSeed (Run.filled 0), ⟨true, true⟩⟩ parked
      { onward with completed := false, finish := none } onward ⟨7, "device"⟩ ⟨⟨120, 0⟩, none⟩ :=
    ⟨hkeyed, rfl, rfl, rfl, rfl, rfl, rfl, by decide, by decide, by decide, fun _ => by decide⟩
  obtain ⟨_, _, alone, row, _, _, hclosed, hraces⟩ := race_ends_as_alone rivals steady
  obtain ⟨ended, hleads, hfirst, hlast⟩ := (hraces _ .refl).2.2
  obtain ⟨result, hresult⟩ := Option.isSome_iff_exists.mp hlast
  obtain ⟨hok, hrows⟩ := (hraces ended hleads).2.1 result hresult
  subst hok
  exact ⟨ended, hleads, hfirst, hresult, row, hrows, hclosed⟩

end Race

end TripArchive
