import TripArchive.Proofs.Gzip.Stored
import TripArchive.Proofs.Segment.Phases
import TripArchive.Proofs.Segment.Solo

/-!
# What a failed event leaves

A handler by itself, with any of its calls failing, either leaves the tables as they are or is a
complete event that had opened its segment before it failed. A complete event that is turned away
has not drawn a key.
-/

namespace TripArchive

namespace Processor

open Handler

variable {processor : Processor} {event : SegmentEvent} {finish : Endpoint} {store later : Store}
  {trace : List Answered}

/-- What a complete event does with its segment once it is loaded. -/
def closing (processor : Processor) (event : SegmentEvent) (finish : Endpoint)
    (loaded : Segment) : Handler Unit :=
  (placeLate loaded event.start.location).bind fun segment =>
    .call .generateKey fun key => processor.finishing event finish segment key

/-- A handler that asks for no writing leaves the tables as they are. -/
theorem ends_of_only {α : Type} {h : Handler α} {result : Except SegmentError α}
    (hends : h.Ends Store.Answers store trace result later)
    (honly : h.Only fun c => c.writes = false) : later = store := by
  induction hends with
  | done | fail => rfl
  | call hanswer _ ih => rw [ih (honly.2 _), hanswer.unchanged honly.1]

/-- Placing a late start writes nothing. -/
theorem only_reads_placeLate (segment : Segment) (start : Option Point) :
    (placeLate segment start).Only fun c => c.writes = false := by
  unfold placeLate
  split
  · trivial
  · split
    · refine Only.bind ⟨rfl, fun answer => only_ofExcept answer⟩ fun prior => ?_
      split <;> trivial
    · trivial

/-- Archiving writes nothing into the tables. -/
theorem only_reads_archive (processor : Processor) (device : String) (segment : Segment)
    (finish : Instant) (key : Package.SegmentKey) :
    (processor.archive device segment finish key).Only fun c => c.writes = false :=
  only_archive processor device segment finish key (fun _ => rfl) rfl fun _ => rfl

/-- Closing a segment by itself leaves the tables as they are if it fails: the writing comes
last. -/
theorem ends_closing {loaded : Segment} {e : SegmentError}
    (hends : (processor.closing event finish loaded).Ends Store.Answers store trace (.error e)
      later) : later = store := by
  rcases Ends.of_bind hends with ⟨_, _, hplace⟩ | ⟨_, _, segment, placed, rfl, hplace, hrest⟩
  · exact ends_of_only hplace (only_reads_placeLate loaded _)
  have hplaced := ends_of_only hplace (only_reads_placeLate loaded _)
  cases hrest with
  | @call _ _ key _ drawn _ _ _ hdraw hfinish =>
    have hdrawn : drawn = placed := hdraw.unchanged rfl
    rcases Ends.of_bind hfinish with
      ⟨_, _, harchive⟩ | ⟨_, _, archiveId, archived, rfl, harchive, hclose⟩
    · rw [ends_of_only harchive (only_reads_archive processor _ segment _ key), hdrawn, hplaced]
    · have harchived := ends_of_only harchive (only_reads_archive processor _ segment _ key)
      obtain ⟨answer, hanswer, _, hresult⟩ := hclose.of_ask
      have hstep := hanswer.tableStep
      cases answer with
      | ok value => cases hresult
      | error e =>
        cases hstep
        rw [harchived, hdrawn, hplaced]

/-- A complete event with an end loads its segment and closes it. -/
theorem complete_eq_closing (processor : Processor) (hfinish : event.finish = some finish) :
    processor.complete event = (loadOpen event).bind (processor.closing event finish) :=
  complete_eq processor event hfinish

/-- A complete event that fails by itself leaves the tables as they are, or it opened its segment;
then it reported an end. -/
theorem ends_complete {e : SegmentError}
    (hends : (processor.complete event).Ends Store.Answers store trace (.error e) later) :
    later = store ∨
      ∃ finish row, event.finish = some finish ∧ store.Opens event row later := by
  cases hfinish : event.finish with
  | none =>
    unfold complete at hends
    rw [hfinish] at hends
    cases hends
    exact Or.inl rfl
  | some finish =>
    rw [complete_eq_closing processor hfinish] at hends
    rcases Ends.of_bind hends with ⟨_, _, hload⟩ | ⟨_, _, loaded, between, rfl, hload, hclosing⟩
    · rcases ends_loadOpen hload with ⟨hlater, _⟩ | ⟨_, hok, _⟩
      · exact Or.inl hlater
      · cases hok
    · have hlater := ends_closing hclosing
      rcases ends_loadOpen hload with ⟨_, _, he⟩ | ⟨row, _, ⟨hbetween, _⟩ | hopens⟩
      · cases he
      · exact Or.inl (hlater.trans hbetween)
      · exact Or.inr ⟨finish, row, rfl, hlater ▸ hopens⟩

/-- What a complete event does from its key on never fails in looking up its vehicle or in the state
of its segment. -/
theorem fails_finishing (processor : Processor) (event : SegmentEvent) (finish : Endpoint)
    (segment : Segment) (key : Package.SegmentKey) :
    (processor.finishing event finish segment key).Fails fun e =>
      e.stage ≠ .lookup ∧ e.stage ≠ .state := by
  have hstore (error : Store.Error) : (SegmentError.store error).stage ≠ .lookup ∧
      (SegmentError.store error).stage ≠ .state := by
    constructor <;> exact nofun
  have hwritten (archiveId : Option String) : (Handler.updateSegment segment.id
      (completion finish segment key archiveId)).Fails fun e =>
        e.stage ≠ .lookup ∧ e.stage ≠ .state :=
    fun answer => fails_ofExcept answer hstore
  refine Fails.bind ?_ hwritten
  unfold archive
  split
  · refine Fails.bind (fun answer => fails_ofExcept answer fun error => ?_) fun raw => ?_
    · constructor <;> exact nofun
    refine Fails.bind (h := ask .generateNonce) (fun _ => trivial) fun nonce => ?_
    refine Fails.bind (fails_ofExcept _ fun error => ?_) fun item => ?_
    · constructor <;> exact nofun
    split
    · refine Fails.bind (fun answer => fails_ofExcept answer fun error => ?_) fun _ => trivial
      constructor <;> exact nofun
    · trivial
  · trivial

/-- A complete event that fails in looking up its vehicle or in the state of its segment has gone
through no phase. -/
theorem phases_of_complete {e : SegmentError}
    (hends : (processor.complete event).Ends Store.Answers store trace (.error e) later)
    (hstage : e.stage = .lookup ∨ e.stage = .state) : phases trace = [] := by
  cases hfinish : event.finish with
  | none =>
    unfold complete at hends
    rw [hfinish] at hends
    cases hends
    rfl
  | some finish =>
    rw [complete_eq_closing processor hfinish] at hends
    rcases Ends.of_bind hends with ⟨_, _, hload⟩ | ⟨first, _, loaded, between, rfl, hload, hclosing⟩
    · exact phases_opening (hload.path.only (only_loadOpen event)).1
    have hfirst := phases_opening (hload.path.only (only_loadOpen event)).1
    rcases Ends.of_bind hclosing with ⟨_, _, hplace⟩ | ⟨_, _, segment, placed, rfl, _, hrest⟩
    · have hsecond := phases_opening (hplace.path.only (only_placeLate event loaded _)).1
      rw [phases_append, hfirst, hsecond, List.append_nil]
    · cases hrest with
      | call _ hfinishing =>
        obtain ⟨hlookup, hstate⟩ :=
          hfinishing.fails (fails_finishing processor event finish segment _)
        exact absurd hstage (not_or.mpr ⟨hlookup, hstate⟩)

end Processor

namespace Request

open Processor

/-- A request that fails by itself, whichever of its calls fail, leaves the tables as they are. Only
a complete event may have changed them: by one open row, under the new identifier of its segment,
with the start that it reports and for the vehicle of its device. If the vehicle is unknown, the
segment is closed or the end is missing, then no key was drawn, nothing fetched and nothing
uploaded. -/
theorem failure_atomic {processor : Processor} {request : Request} {store later : Store}
    {trace : List Answered} {e : SegmentError}
    (hends : (request.handler processor).Ends Store.Answers store trace (.error e) later) :
    (later = store ∨ ∃ event vehicle row, request = .complete event ∧
      store.segment? event.id = none ∧ store.vehicle? event.deviceId = some vehicle ∧
      row.id = event.id ∧ row.isClosed = false ∧ row.startTime = event.start.time ∧
      row.vehicleToken = vehicle.token ∧
      later = { store with segments := store.segments ++ [row] }) ∧
    ((∃ device, e = .vehicleNotFound device) ∨ (∃ id, e = .alreadyClosed id) ∨
      (∃ id, e = .missingEnd id) → phases trace = []) := by
  constructor
  · cases request with
    | begin event => exact Or.inl (ends_begin hends)
    | vehicle event => exact Or.inl (ends_vehicleEvent hends)
    | complete event =>
      rcases ends_complete hends with hlater | ⟨_, row, _, hopens⟩
      · exact Or.inl hlater
      · obtain ⟨vehicle, hvehicle, rfl⟩ := hopens.placed
        exact Or.inr ⟨event, vehicle, _, rfl, hopens.fresh, hvehicle, rfl, rfl, rfl, rfl,
          hopens.added⟩
  · intro hguard
    have hstage : e.stage = .lookup ∨ e.stage = .state := by
      rcases hguard with ⟨device, rfl⟩ | ⟨id, rfl⟩ | ⟨id, rfl⟩
      · exact Or.inl rfl
      · exact Or.inr rfl
      · exact Or.inr rfl
    cases request with
    | begin event => exact phases_eq_nil_of_path hends.path (by simp)
    | vehicle event => exact phases_eq_nil_of_path hends.path (by simp)
    | complete event => exact phases_of_complete hends hstage

/-- The tables with one vehicle and no segment. -/
def oneVehicle : Store := ⟨[⟨7, "device"⟩], []⟩

/-- A processor that archives what it fetches. -/
def archiving : Processor := ⟨.stored, Signer.ofSeed (Run.filled 0), ⟨true, true⟩⟩

/-- The tables once the ride of the vehicle is opened. -/
def rideOpened : Store := ⟨oneVehicle.vehicles, [Segment.opened "ride" 7 ⟨60, 0⟩]⟩

/-- A ride whose telemetry cannot be fetched is opened and not closed. -/
theorem exists_unfetched : ∃ trace, (archiving.complete Run.ride).Ends Store.Answers oneVehicle
    trace (.error (.telemetry (.transport "reset"))) rideOpened := by
  have hdrawn : rideOpened.Answers .generateKey (Run.filled 1) rideOpened := .elsewhere rfl
  have hfetched : rideOpened.Answers (.fetch ⟨"device", ⟨60, 0⟩, ⟨120, 0⟩⟩)
      (Except.error (.transport "reset")) rideOpened := .elsewhere rfl
  exact ⟨_, .call (.served rfl) (.call (.served rfl) (.call (.served rfl)
    (.call hdrawn (.call hfetched (.fail _ _)))))⟩

/-- A ride whose telemetry cannot be fetched is left open in its row. Of a ride whose device has no
vehicle nothing is left, and no key is drawn for it. -/
theorem failed_rides :
    (∃ trace later row, ((Request.complete Run.ride).handler archiving).Ends Store.Answers
        oneVehicle trace (.error (.telemetry (.transport "reset"))) later ∧
      later = { oneVehicle with segments := oneVehicle.segments ++ [row] } ∧
      row.id = "ride" ∧ row.isClosed = false ∧ row.vehicleToken = 7) ∧
    ∃ trace, ((Request.complete Run.ride).handler archiving).Ends Store.Answers Store.empty trace
        (.error (.vehicleNotFound "device")) Store.empty ∧ phases trace = [] := by
  constructor
  · obtain ⟨trace, hends⟩ := exists_unfetched
    change ((Request.complete Run.ride).handler archiving).Ends _ _ _ _ _ at hends
    rcases (failure_atomic hends).1 with
      hlater | ⟨event, vehicle, row, ⟨⟩, _, hvehicle, hid, hopen, _, htoken, hadded⟩
    · exact absurd (congrArg Store.segments hlater) (List.cons_ne_nil _ _)
    · cases hvehicle
      exact ⟨trace, rideOpened, row, hends, hadded, hid, hopen, htoken⟩
  · have hends : ∃ trace, ((Request.complete Run.ride).handler archiving).Ends Store.Answers
        Store.empty trace (.error (.vehicleNotFound "device")) Store.empty :=
      ⟨_, .call (.served rfl) (.call (.served rfl) (.fail _ _))⟩
    obtain ⟨trace, hends⟩ := hends
    exact ⟨trace, hends, (failure_atomic hends).2 (Or.inl ⟨"device", rfl⟩)⟩

end Request

end TripArchive
