import TripArchive.Segment.Handler

/-!
# The life of a segment

A begin event opens a segment and a complete event closes it, with its telemetry archived in
between. A complete event for a segment that was never opened opens it first. A segment that is
closed takes no more events.
-/

namespace TripArchive

/-- What happens to the telemetry of a completed segment. Nothing is uploaded that was not
fetched. -/
structure Options where
  fetch : Bool
  upload : Bool
  deriving DecidableEq, Repr

/-- Where a segment that is being opened began. -/
structure Placement where
  position : Option Point
  estimate : Option Point
  dropped : Bool
  deriving DecidableEq, Repr

namespace Placement

/-- The reported start, unless the vehicle's previous segment ended near enough to it: then that
end stands in for the start, and the stretch between counts as lost. -/
def resolve (priorEnd start : Option Point) : Placement :=
  if Point.optionNear priorEnd start then ⟨none, priorEnd, true⟩ else ⟨start, none, false⟩

end Placement

/-- The estimate of a start that is reported late. Without an earlier segment the late report
itself is the estimate; otherwise only an end that is near enough. -/
def lateEstimate (prior : Option Segment) (start : Point) : Option Point :=
  match prior with
  | none => some start
  | some prior => prior.endPosition.filter fun ended => Point.optionNear (some ended) (some start)

/-- The processor of segment and vehicle events, with the compressor and the signer of its
packages. -/
structure Processor where
  compressor : Gzip.Compressor
  signer : Signer
  options : Options

namespace Processor

open Handler

/-- The segment that an event opens. -/
def placed (event : SegmentEvent) (vehicle : Vehicle) (placement : Placement) : Segment :=
  { Segment.opened event.id vehicle.token event.start.time with
    startPosition := placement.position
    startEstimate := placement.estimate
    droppedData := placement.dropped }

/-- Where the vehicle's previous segment ended. It is looked up only for an event that says where
its segment began. -/
def priorEnd (vehicle : Vehicle) (start : Option Point) : Handler (Option Point) :=
  match start with
  | none => done none
  | some _ => do
    let prior ← priorSegment vehicle.token
    done (prior.bind Segment.endPosition)

/-- Opens the segment of an event, if its device has a vehicle. -/
def openSegment (event : SegmentEvent) : Handler Segment := do
  match ← getVehicle event.deviceId with
  | none => fail (.vehicleNotFound event.deviceId)
  | some vehicle =>
    let ended ← priorEnd vehicle event.start.location
    let segment := placed event vehicle (Placement.resolve ended event.start.location)
    insertSegment segment
    done segment

/-- Handles a begin event. -/
def begin (event : SegmentEvent) : Handler Unit := do
  let existing ← getSegment event.id
  if existing.any Segment.isClosed then fail (.alreadyClosed event.id)
  else
    let _ ← openSegment event
    done ()

/-- Loads the segment of an event that another handler opened. -/
def reload (event : SegmentEvent) : Handler Segment := do
  match ← getSegment event.id with
  | none => fail (.store (.notOpen event.id))
  | some segment => done segment

/-- Opens the segment of a complete event that had no begin event. If another handler opened it in
the meantime, the segment is loaded instead. -/
def openOrReload (event : SegmentEvent) : Handler Segment :=
  (openSegment event).recover fun
    | .store (.duplicate _) => reload event
    | e => fail e

/-- The segment of a complete event as long as it is open. -/
def loadOpen (event : SegmentEvent) : Handler Segment := do
  let segment ←
    match ← getSegment event.id with
    | some segment => done segment
    | none => openOrReload event
  if segment.isClosed then fail (.alreadyClosed event.id) else done segment

/-- A segment whose start is unknown, with the estimate that a late report of it allows. -/
def placeLate (segment : Segment) (start : Option Point) : Handler Segment :=
  match start with
  | none => done segment
  | some start =>
    if segment.startUnknown then do
      let prior ← priorSegment segment.vehicleToken
      match lateEstimate prior start with
      | none => done segment
      | some estimate =>
        done { segment with startEstimate := some estimate, droppedData := true }
    else done segment

/-- How the package of a segment is labelled. -/
def label (segment : Segment) (finish : Instant) : Package.Label :=
  ⟨segment.vehicleToken, segment.id, segment.startTime, finish⟩

/-- Packs telemetry with the processor's own compressor and signer. -/
def pack (processor : Processor) (raw : Bytes) (key : Package.SegmentKey) (nonce : Package.Nonce)
    (label : Package.Label) : Except Package.Error Item :=
  Package.pack processor.compressor processor.signer raw key nonce label

/-- Archives the telemetry of a segment and gives the identifier of its item, if it was uploaded. -/
def archive (processor : Processor) (device : String) (segment : Segment) (finish : Instant)
    (key : Package.SegmentKey) : Handler (Option String) := do
  if processor.options.fetch then
    let raw ← fetch ⟨device, segment.startTime, finish⟩
    let nonce ← ask .generateNonce
    let item ← ofExcept .package (processor.pack raw key nonce (label segment finish))
    if processor.options.upload then
      let _ ← upload item
      done (some item.id)
    else done none
  else done none

/-- Handles a complete event. -/
def complete (processor : Processor) (event : SegmentEvent) : Handler Unit :=
  match event.finish with
  | none => fail (.missingEnd event.id)
  | some finish => do
    let loaded ← loadOpen event
    let segment ← placeLate loaded event.start.location
    let key ← ask .generateKey
    let archiveId ← processor.archive event.deviceId segment finish.time key
    updateSegment segment.id
      { endTime := finish.time
        endPosition := finish.location
        startEstimate := segment.startEstimate
        droppedData := segment.droppedData
        encryptionKey := key.val
        archiveId := archiveId }

/-- Handles a segment event. -/
def segmentEvent (processor : Processor) (event : CloudEvent SegmentEvent) : Handler Unit :=
  if event.data.completed then processor.complete event.data else begin event.data

/-- Handles a vehicle event; one of another type than a mint needs no call. -/
def vehicleEvent (event : CloudEvent MintEvent) : Handler Unit :=
  if event.type = mintType then upsertVehicle event.data.deviceId event.data.tokenId
  else done ()

end Processor

end TripArchive
