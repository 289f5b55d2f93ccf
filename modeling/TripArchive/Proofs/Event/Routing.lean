import TripArchive.Event.Router
import TripArchive.Proofs.Except
import TripArchive.Proofs.Json.Kept

/-!
# Mints by two steps

A mint could be decoded at once, as a segment event is. The router keeps its data as a value
first, and reads the mint from that. What comes out is the same event (`mint_routed_iff`), unless
the data hold something that no value can hold, if only in a field that nothing reads: then the
message counts as malformed.
-/

namespace TripArchive

/-- Reads data as they are sent. -/
def Json.Reader.sent : Json.Reader Json.Raw := fun _ raw => some raw

namespace CloudEvent

variable {α : Type}

/-- An envelope is read around the data as they are sent, and then these. -/
theorem reader_eq (read : Json.Reader α) (depth : Nat) (raw : Json.Raw) :
    reader read depth raw = (reader Json.Reader.sent depth raw).bind fun envelope =>
      (read (depth - 1) envelope.data).map envelope.withData := by
  unfold reader Json.Reader.record
  by_cases hdepth : depth = 0
  · simp [hdepth]
  · simp only [if_neg hdepth, Option.bind_assoc]
    refine congrArg _ (funext fun slots => ?_)
    simp only [Option.bind_eq_bind, Option.bind_assoc, Json.Slots.required, Json.Reader.sent,
      Option.bind_some]
    -- Six fields of the envelope are read alike, and then the same data are found.
    iterate 7 refine Option.bind_congr fun _ _ => ?_
    exact Option.map_eq_bind.symm

/-- A payload is decoded around the data as they are sent, and then these. -/
theorem decode?_eq (read : Json.Reader α) (payload : Bytes) :
    Json.decode? (reader read) payload =
      (Json.decode? (reader Json.Reader.sent) payload).bind fun envelope =>
        (read (Json.maxDepth - 1) envelope.data).map envelope.withData := by
  unfold Json.decode?
  rw [Option.bind_assoc]
  exact Option.bind_congr fun raw _ => reader_eq read Json.maxDepth raw

end CloudEvent

open Json.Reader

/-- Times are read as they were kept. -/
theorem Instant.keeps_reader : Keeps Instant.reader := keeps_string.bind Relaxed.read?

namespace MintEvent

/-- The device of a mint is read as it was kept. -/
theorem keeps_deviceReader : Keeps deviceReader :=
  Keeps.record fun hkept hread => keeps_string.required hkept hread

/-- The token of a mint is read as it was kept. -/
theorem keeps_tokenReader : Keeps tokenReader :=
  Keeps.record fun hkept hread => (keeps_int minInt64 maxInt64).required hkept hread

/-- A mint is read as it was kept. -/
theorem keeps_reader : Keeps reader := by
  refine Keeps.record fun hkept hread => ?_
  simp only [Option.bind_eq_bind, Option.bind_eq_some_iff] at hread ⊢
  obtain ⟨timestamp, htimestamp, user, huser, device, hdevice, token, htoken, hmint⟩ := hread
  exact ⟨timestamp, Instant.keeps_reader.nullable.withDefault hkept htimestamp,
    user, keeps_string.nullable.withDefault hkept huser,
    device, keeps_deviceReader.required hkept hdevice,
    token, keeps_tokenReader.required hkept htoken, hmint⟩

end MintEvent

namespace Router

variable {router : Router} {delivery : Delivery} {payload : Bytes}

/-- What arrives on the topic of the vehicles is decoded as a vehicle event. -/
theorem route_vehicle (hvehicle : delivery.topic = router.vehicleTopic)
    (hsegment : delivery.topic ≠ router.segmentTopic) (payload : Bytes) :
    router.route delivery (some payload) = routeVehicle delivery payload := by
  rw [route, if_neg hsegment, if_pos hvehicle]

/-- A mint that is decoded at once is routed as the same event, with its delivery as it came,
exactly if its data can be kept as a value: all numbers in them are in range, all strings and keys
are texts, and they do not nest too deep, also in fields that nothing reads. Otherwise the message
counts as malformed. -/
theorem mint_routed_iff {event : CloudEvent MintEvent}
    (hdecode : Json.decode? (CloudEvent.reader MintEvent.reader) payload = some event)
    (htype : event.type = mintType) (hvehicle : delivery.topic = router.vehicleTopic)
    (hsegment : delivery.topic ≠ router.segmentTopic) :
    ∃ sent, Json.decode? (CloudEvent.reader Json.Reader.sent) payload = some sent ∧
      (router.route delivery (some payload) = .ok (.vehicle ⟨event, delivery⟩) ↔
        sent.data.Plain (Json.maxDepth - 1)) ∧
      (¬sent.data.Plain (Json.maxDepth - 1) →
        router.route delivery (some payload) = .error .malformed) := by
  rw [CloudEvent.decode?_eq] at hdecode
  obtain ⟨sent, hsent, hdata⟩ := Option.bind_eq_some_iff.mp hdecode
  obtain ⟨mint, hmint, rfl⟩ := Option.map_eq_some_iff.mp hdata
  have hkept : Json.decode? (CloudEvent.reader Json.Reader.value) payload =
      (Json.Raw.value (Json.maxDepth - 1) sent.data).map sent.withData := by
    rw [CloudEvent.decode?_eq, hsent]
    rfl
  rw [route_vehicle hvehicle hsegment]
  refine ⟨sent, hsent, ?_⟩
  rw [← Json.Raw.isSome_value_iff]
  unfold routeVehicle decode
  rw [hkept]
  cases hvalue : Json.Raw.value (Json.maxDepth - 1) sent.data with
  | none => exact ⟨⟨nofun, nofun⟩, fun _ => rfl⟩
  | some value =>
    have hconvert : Json.convert? MintEvent.reader (sent.withData value).data = some mint :=
      MintEvent.keeps_reader.convert hmint hvalue
    have hmintType : (sent.withData value).type = mintType := htype
    simp only [Option.map_some, Option.elim, bind, Except.bind, if_pos hmintType, hconvert]
    exact ⟨⟨fun _ => rfl, fun _ => rfl⟩, fun hnone => absurd rfl hnone⟩

/-- The topics of a bus. -/
def topics : Router := ⟨"segments", "vehicles"⟩

/-- A message on the topic of the vehicles. -/
def onVehicles : Delivery := ⟨"vehicles", 0, 42⟩

/-- A mint with a field that nothing reads, in which a key stands twice. -/
def annotatedMint : Bytes := Utf8.encode
  ("\x7b\"type\":\"com.dimo.zone.device.mint\",\"data\":\x7b\"device\":\x7b\"id\":\"d\"\x7d," ++
    "\"nft\":\x7b\"tokenId\":1\x7d,\"extra\":[\x7b\"a\":1e308,\"a\":null\x7d]\x7d\x7d")

/-- A mint with a field that nothing reads, in which a number is out of range. -/
def excessiveMint : Bytes := Utf8.encode
  ("\x7b\"type\":\"com.dimo.zone.device.mint\",\"data\":\x7b\"device\":\x7b\"id\":\"d\"\x7d," ++
    "\"nft\":\x7b\"tokenId\":1\x7d,\"extra\":1e999\x7d\x7d")

/-- The event of both. -/
def plainMint : CloudEvent MintEvent where
  id := ""
  source := ""
  specversion := ""
  subject := ""
  time := none
  type := mintType
  data := ⟨none, none, "d", 1⟩

/-- An annotated mint is routed as its event. -/
theorem annotated_routed :
    Json.decode? (CloudEvent.reader MintEvent.reader) annotatedMint = some plainMint ∧
      plainMint.type = mintType ∧ onVehicles.topic = topics.vehicleTopic ∧
      onVehicles.topic ≠ topics.segmentTopic ∧
      topics.route onVehicles (some annotatedMint) = .ok (.vehicle ⟨plainMint, onVehicles⟩) := by
  have hdecode : Json.decode? (CloudEvent.reader MintEvent.reader) annotatedMint =
      some plainMint := by decide +kernel
  have hother : onVehicles.topic ≠ topics.segmentTopic := by decide
  obtain ⟨sent, hsent, hrouted, _⟩ := mint_routed_iff hdecode rfl rfl hother
  have hvalue : (Json.decode? (CloudEvent.reader Json.Reader.sent) annotatedMint).all
      (fun sent => (Json.Raw.value (Json.maxDepth - 1) sent.data).isSome) = true := by
    decide +kernel
  rw [hsent] at hvalue
  exact ⟨hdecode, rfl, rfl, hother, hrouted.mpr ((Json.Raw.isSome_value_iff _ _).mp hvalue)⟩

/-- An excessive mint is the same event if it is decoded at once, but counts as malformed where it
is routed. -/
theorem excessive_refused :
    Json.decode? (CloudEvent.reader MintEvent.reader) excessiveMint = some plainMint ∧
      plainMint.type = mintType ∧ onVehicles.topic = topics.vehicleTopic ∧
      onVehicles.topic ≠ topics.segmentTopic ∧
      topics.route onVehicles (some excessiveMint) = .error .malformed := by
  have hdecode : Json.decode? (CloudEvent.reader MintEvent.reader) excessiveMint =
      some plainMint := by decide +kernel
  have hkept : Json.decode? (CloudEvent.reader Json.Reader.value) excessiveMint = none :=
    Option.isNone_iff_eq_none.mp (by decide +kernel)
  have hother : onVehicles.topic ≠ topics.segmentTopic := by decide
  refine ⟨hdecode, rfl, rfl, hother, ?_⟩
  rw [route_vehicle rfl hother]
  unfold routeVehicle decode
  rw [hkept]
  rfl

end Router

end TripArchive
