import TripArchive.Event

/-!
# Routing messages

A message is decoded by the topic on which it arrived. The data of a vehicle event stay as they are
until the envelope says that they describe a mint.
-/

namespace TripArchive

/-- The place of a message on the bus. -/
structure Delivery where
  topic : String
  partition : Int
  offset : Int
  deriving DecidableEq, Repr

/-- A decoded event that waits for a worker. -/
structure Task (α : Type) where
  event : CloudEvent α
  delivery : Delivery
  deriving DecidableEq, Repr

/-- What a message turns out to be. -/
inductive Inbound
  | segment (task : Task SegmentEvent)
  | vehicle (task : Task MintEvent)
  /-- A vehicle event of a type that nothing here handles. -/
  | ignored (delivery : Delivery) (type : String)
  deriving DecidableEq, Repr

/-- Why a message cannot be decoded. -/
inductive RouteError
  | missingPayload
  | unknownTopic (topic : String)
  | malformed
  deriving DecidableEq, Repr

/-- The words for a message that cannot be decoded. -/
def RouteError.message : RouteError → String
  | missingPayload => "Message has no payload"
  | unknownTopic topic => s!"Message arrived on unsubscribed topic {topic}"
  | malformed => "Failed to deserialize message"

/-- The topics that are subscribed. -/
structure Router where
  segmentTopic : String
  vehicleTopic : String
  deriving DecidableEq, Repr

namespace Router

/-- Reads a payload or says that it is malformed. -/
def decode {α : Type} (read : Json.Reader α) (payload : Bytes) : Except RouteError α :=
  (Json.decode? read payload).elim (.error .malformed) .ok

/-- Decodes a vehicle event: first the envelope around any data, then the data of a mint. -/
def routeVehicle (delivery : Delivery) (payload : Bytes) : Except RouteError Inbound := do
  let envelope ← decode (CloudEvent.reader .value) payload
  if envelope.type = mintType then
    match Json.convert? MintEvent.reader envelope.data with
    | none => .error .malformed
    | some mint => .ok (.vehicle ⟨envelope.withData mint, delivery⟩)
  else .ok (.ignored delivery envelope.type)

/-- Decodes a message by its topic. -/
def route (router : Router) (delivery : Delivery) (payload : Option Bytes) :
    Except RouteError Inbound :=
  match payload with
  | none => .error .missingPayload
  | some payload =>
    if delivery.topic = router.segmentTopic then do
      let event ← decode (CloudEvent.reader SegmentEvent.reader) payload
      .ok (.segment ⟨event, delivery⟩)
    else if delivery.topic = router.vehicleTopic then routeVehicle delivery payload
    else .error (.unknownTopic delivery.topic)

end Router

end TripArchive
