import TripArchive.Geo
import TripArchive.Package

/-!
# Vehicles and segments

The two tables of the service and the operations on them. A vehicle is one row per token and one
per device; a segment is opened once, closed once, and never removed. An operation that is refused
changes nothing.
-/

namespace TripArchive

/-- The mapping between a device and its vehicle token. -/
structure Vehicle where
  token : Int
  device : String
  deriving DecidableEq, Repr

/-- One continuous drive of a vehicle. -/
structure Segment where
  id : String
  vehicleToken : Int
  startTime : Instant
  endTime : Option Instant
  startPosition : Option Point
  startEstimate : Option Point
  endPosition : Option Point
  droppedData : Bool
  encryptionKey : Option Bytes
  archiveId : Option String
  deriving DecidableEq, Repr

/-- What is written when a segment closes. -/
structure Completion where
  endTime : Instant
  endPosition : Option Point
  startEstimate : Option Point
  droppedData : Bool
  encryptionKey : Bytes
  archiveId : Option String
  deriving DecidableEq, Repr

namespace Segment

/-- A segment that was just opened, without a start position. -/
def opened (id : String) (vehicleToken : Int) (startTime : Instant) : Segment where
  id := id
  vehicleToken := vehicleToken
  startTime := startTime
  endTime := none
  startPosition := none
  startEstimate := none
  endPosition := none
  droppedData := false
  encryptionKey := none
  archiveId := none

/-- Whether a segment has ended. -/
def isClosed (segment : Segment) : Bool := segment.endTime.isSome

/-- Whether neither the start nor an estimate of it is known. -/
def startUnknown (segment : Segment) : Bool :=
  segment.startPosition.isNone && segment.startEstimate.isNone

/-- A segment with its completion. -/
def complete (segment : Segment) (completion : Completion) : Segment :=
  { segment with
    endTime := some completion.endTime
    endPosition := completion.endPosition
    startEstimate := completion.startEstimate
    droppedData := completion.droppedData
    encryptionKey := some completion.encryptionKey
    archiveId := completion.archiveId }

end Segment

namespace Store

/-- Why the store refuses an operation. -/
inductive Error
  | duplicate (what : String)
  | missingReference (what : String)
  | notOpen (id : String)
  /-- The database failed; nothing is known about the operation. -/
  | database (reason : String)
  deriving DecidableEq, Repr

/-- The words for a refusal. -/
def Error.message : Error → String
  | duplicate what => s!"duplicate key: {what}"
  | missingReference what => s!"referenced row not found: {what}"
  | notOpen id => s!"segment {id} is missing or already closed"
  | database reason => s!"database error: {reason}"

/-- What errors call the vehicle of a device. -/
def vehicleName (device : String) : String := s!"vehicle for device {device}"

/-- What errors call a segment. -/
def segmentName (id : String) : String := s!"segment {id}"

end Store

/-- The rows of the two tables. -/
structure Store where
  vehicles : List Vehicle
  segments : List Segment
  deriving DecidableEq, Repr

namespace Store

/-- The tables before any event. -/
def empty : Store := ⟨[], []⟩

/-- The vehicle of a device. -/
def vehicle? (store : Store) (device : String) : Option Vehicle :=
  store.vehicles.find? fun vehicle => vehicle.device = device

/-- Whether a token is known. -/
def knows (store : Store) (token : Int) : Bool :=
  store.vehicles.any fun vehicle => vehicle.token = token

/-- The segment with an identifier. -/
def segment? (store : Store) (id : String) : Option Segment :=
  store.segments.find? fun segment => segment.id = id

/-- The later of two ends, and the second of equal ones; an open segment has none. -/
def later (a b : Segment) : Segment :=
  match a.endTime, b.endTime with
  | some s, some t => if Instant.lt t s then a else b
  | some _, none => a
  | none, _ => b

/-- The closed segment of a vehicle that ended last. Of several that ended at once it is the one
that was inserted last; a database leaves open which of them it gives. -/
def prior? (store : Store) (token : Int) : Option Segment :=
  (store.segments.filter fun segment => segment.vehicleToken = token && segment.isClosed).foldl
    (fun best segment => some (best.elim segment fun best => later best segment)) none

/-- Records a vehicle. A known token is left as it is, and a device has one token only. -/
def upsertVehicle (store : Store) (device : String) (token : Int) : Except Error Store :=
  if store.knows token then .ok store
  else if (store.vehicle? device).isSome then .error (.duplicate (vehicleName device))
  else .ok { store with vehicles := store.vehicles ++ [⟨token, device⟩] }

/-- Adds a segment of a known vehicle under a new identifier. -/
def insertSegment (store : Store) (segment : Segment) : Except Error Store :=
  if !store.knows segment.vehicleToken then
    .error (.missingReference (segmentName segment.id))
  else if (store.segment? segment.id).isSome then .error (.duplicate (segmentName segment.id))
  else .ok { store with segments := store.segments ++ [segment] }

/-- Closes a segment that is open. -/
def closeSegment (store : Store) (id : String) (completion : Completion) : Except Error Store :=
  match store.segment? id with
  | none => .error (.notOpen id)
  | some segment =>
    if segment.isClosed then .error (.notOpen id)
    else
      .ok { store with
        segments := store.segments.map fun other =>
          if other.id = id then other.complete completion else other }

end Store

end TripArchive
