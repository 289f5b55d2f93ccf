import TripArchive.Geo
import TripArchive.Number.Width
import TripArchive.Time.Relaxed

/-!
# Events

What the message bus carries: an envelope common to all topics around one of two kinds of data,
a segment that begins or completes, or a vehicle token that is minted for a device. Each kind has a
reader and a written form; what is written reads back.
-/

namespace TripArchive

/-- The envelope of an event. -/
structure CloudEvent (α : Type) where
  id : String
  source : String
  specversion : String
  subject : String
  time : Option Instant
  type : String
  data : α
  deriving DecidableEq, Repr

/-- One end of a segment: when, and where if the device knew. -/
structure Endpoint where
  time : Instant
  location : Option Point
  deriving DecidableEq, Repr

/-- A segment that began or completed. -/
structure SegmentEvent where
  id : String
  deviceId : String
  completed : Bool
  start : Endpoint
  finish : Option Endpoint
  deriving DecidableEq, Repr

/-- A vehicle token that was minted for a device. -/
structure MintEvent where
  timestamp : Option Instant
  userId : Option String
  deviceId : String
  tokenId : Int
  deriving DecidableEq, Repr

/-- The event type of a mint. -/
def mintType : String := "com.dimo.zone.device.mint"

namespace Instant

/-- Reads a time. -/
def reader : Json.Reader Instant := fun depth raw =>
  (Json.Reader.string depth raw).bind Relaxed.read?

/-- A time as a value. -/
def toJson (t : Instant) : Json := .string (Rfc3339.write .exact t)

end Instant

namespace CloudEvent

/-- The same envelope around other data. -/
def withData {α β : Type} (event : CloudEvent α) (data : β) : CloudEvent β :=
  ⟨event.id, event.source, event.specversion, event.subject, event.time, event.type, data⟩

/-- Reads an envelope; only the data are required. -/
def reader {α : Type} (data : Json.Reader α) : Json.Reader (CloudEvent α) :=
  Json.Reader.record ["id", "source", "specversion", "subject", "time", "type", "data"]
    fun slots depth => do
      let id ← slots.withDefault 0 "" .string depth
      let source ← slots.withDefault 1 "" .string depth
      let specversion ← slots.withDefault 2 "" .string depth
      let subject ← slots.withDefault 3 "" .string depth
      let time ← slots.withDefault 4 none (.nullable Instant.reader) depth
      let type ← slots.withDefault 5 "" .string depth
      let data ← slots.required 6 data depth
      some ⟨id, source, specversion, subject, time, type, data⟩

/-- An envelope as a value. -/
def toJson {α : Type} (data : α → Json) (event : CloudEvent α) : Json :=
  .object [("id", .string event.id), ("source", .string event.source),
    ("specversion", .string event.specversion), ("subject", .string event.subject),
    ("time", .ofOption Instant.toJson event.time), ("type", .string event.type),
    ("data", data event.data)]

end CloudEvent

namespace Endpoint

/-- Reads an endpoint. -/
def reader : Json.Reader Endpoint :=
  Json.Reader.record ["time", "location"] fun slots depth => do
    let time ← slots.required 0 Instant.reader depth
    let location ← slots.withDefault 1 none (.nullable Point.reader) depth
    some ⟨time, location⟩

/-- An endpoint as a value. -/
def toJson (endpoint : Endpoint) : Json :=
  .object [("time", endpoint.time.toJson), ("location", .ofOption Point.toJson endpoint.location)]

end Endpoint

namespace SegmentEvent

/-- Reads a segment event. -/
def reader : Json.Reader SegmentEvent :=
  Json.Reader.record ["id", "deviceId", "completed", "start", "end"] fun slots depth => do
    let id ← slots.required 0 .string depth
    let deviceId ← slots.required 1 .string depth
    let completed ← slots.withDefault 2 false .bool depth
    let start ← slots.required 3 Endpoint.reader depth
    let finish ← slots.withDefault 4 none (.nullable Endpoint.reader) depth
    some ⟨id, deviceId, completed, start, finish⟩

/-- A segment event as a value. -/
def toJson (event : SegmentEvent) : Json :=
  .object [("id", .string event.id), ("deviceId", .string event.deviceId),
    ("completed", .bool event.completed), ("start", event.start.toJson),
    ("end", .ofOption Endpoint.toJson event.finish)]

end SegmentEvent

namespace MintEvent

/-- Reads the device of a mint. -/
def deviceReader : Json.Reader String :=
  Json.Reader.record ["id"] fun slots depth => slots.required 0 .string depth

/-- Reads the token of a mint. -/
def tokenReader : Json.Reader Int :=
  Json.Reader.record ["tokenId"] fun slots depth =>
    slots.required 0 (.int minInt64 maxInt64) depth

/-- Reads a mint event. -/
def reader : Json.Reader MintEvent :=
  Json.Reader.record ["timestamp", "userId", "device", "nft"] fun slots depth => do
    let timestamp ← slots.withDefault 0 none (.nullable Instant.reader) depth
    let userId ← slots.withDefault 1 none (.nullable .string) depth
    let deviceId ← slots.required 2 deviceReader depth
    let tokenId ← slots.required 3 tokenReader depth
    some ⟨timestamp, userId, deviceId, tokenId⟩

/-- A mint event as a value. -/
def toJson (event : MintEvent) : Json :=
  .object [("timestamp", .ofOption Instant.toJson event.timestamp),
    ("userId", .ofOption .string event.userId),
    ("device", .object [("id", .string event.deviceId)]),
    ("nft", .object [("tokenId", .ofInt event.tokenId)])]

end MintEvent

end TripArchive
