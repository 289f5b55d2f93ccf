import TripArchive.Proofs.Event
import TripArchive.Proofs.Json.Sound
import TripArchive.Proofs.Json.Text
import TripArchive.Proofs.Time.Reading

/-!
# Events are written as they are read

What is decoded keeps to the forms that are written: times have a text of their own, coordinates are
finite and tokens have sixty-four bits, whatever way a sender spelled them. So the text of a decoded
event is decoded to the same event (`events_rewritten`).
-/

namespace TripArchive

/-- Whether a moment is read back from its text: it can be held, and a leap second ends a minute. -/
def Instant.Kept (t : Instant) : Prop :=
  t.InCalendar ∧ (t.nanos < 1000000000 ∨ t.seconds % 60 = 59)

/-- The coordinates of a point. -/
def Point.coordinates (p : Point) : List Float := [p.latitude, p.longitude]

/-- The coordinates of an endpoint. -/
def Endpoint.coordinates (endpoint : Endpoint) : List Float :=
  endpoint.location.toList.flatMap Point.coordinates

/-- The coordinates of an event. -/
def SegmentEvent.coordinates (event : SegmentEvent) : List Float :=
  event.start.coordinates ++ event.finish.toList.flatMap Endpoint.coordinates

/-- Whether an endpoint is one that is read. -/
structure Endpoint.Kept (endpoint : Endpoint) : Prop where
  time : endpoint.time.Kept
  finite : ∀ x ∈ endpoint.coordinates, x.isFinite = true

/-- Whether a segment event is one that is read. -/
structure SegmentEvent.Kept (event : SegmentEvent) : Prop where
  start : event.start.Kept
  finish : ∀ finish ∈ event.finish, finish.Kept

/-- The coordinates of an event that is read are finite. -/
theorem SegmentEvent.Kept.isFinite {event : SegmentEvent} (h : event.Kept) {x : Float}
    (hx : x ∈ event.coordinates) : x.isFinite = true := by
  rcases List.mem_append.mp hx with hstart | hfinish
  · exact h.start.finite x hstart
  · obtain ⟨finish, hmem, hx⟩ := List.mem_flatMap.mp hfinish
    exact (h.finish finish (Option.mem_toList.mp hmem)).finite x hx

/-- Whether a mint is one that is read. -/
structure MintEvent.Kept (mint : MintEvent) : Prop where
  timestamp : ∀ t ∈ mint.timestamp, t.Kept
  token : IsInt64 mint.tokenId

/-- Whether an event is one that is read, given what its data are. -/
structure CloudEvent.Kept {α : Type} (P : α → Prop) (event : CloudEvent α) : Prop where
  time : ∀ t ∈ event.time, t.Kept
  data : P event.data

open Json.Reader

section Gives

/-- Times are read as they are written. -/
theorem Instant.gives_reader : Gives Instant.Kept Instant.reader := by
  intro depth raw t _ hread
  obtain ⟨text, _, htext⟩ := Option.bind_eq_some_iff.mp hread
  obtain ⟨_, _, _, _, _, _, hnanos, hoffset, hmoment⟩ := Relaxed.exists_moment?_of_read? htext
  exact ⟨Relaxed.inCalendar_of_moment? hnanos hmoment,
    Relaxed.leap_of_moment? hnanos hoffset hmoment⟩

/-- Points are read with finite coordinates. -/
theorem Point.gives_reader :
    Gives (fun p => ∀ x ∈ p.coordinates, x.isFinite = true) Point.reader := by
  refine Gives.record fun slots depth p hslots hread => ?_
  simp only [Option.bind_eq_bind, Option.bind_eq_some_iff] at hread
  obtain ⟨latitude, hlatitude, longitude, hlongitude, hp⟩ := hread
  cases hp
  refine List.forall_mem_cons.mpr ⟨gives_double.required hslots hlatitude, ?_⟩
  exact List.forall_mem_singleton.mpr (gives_double.required hslots hlongitude)

/-- Endpoints are read as they are written. -/
theorem Endpoint.gives_reader : Gives Endpoint.Kept Endpoint.reader := by
  refine Gives.record fun slots depth endpoint hslots hread => ?_
  simp only [Option.bind_eq_bind, Option.bind_eq_some_iff] at hread
  obtain ⟨time, htime, location, hlocation, hendpoint⟩ := hread
  cases hendpoint
  refine ⟨Instant.gives_reader.required hslots htime, fun x hx => ?_⟩
  obtain ⟨p, hp, hcoordinate⟩ := List.mem_flatMap.mp hx
  exact Point.gives_reader.nullable.withDefault hslots (by simp) hlocation p
    (Option.mem_toList.mp hp) x hcoordinate

/-- Segment events are read as they are written. -/
theorem SegmentEvent.gives_reader : Gives SegmentEvent.Kept SegmentEvent.reader := by
  refine Gives.record fun slots depth event hslots hread => ?_
  simp only [Option.bind_eq_bind, Option.bind_eq_some_iff] at hread
  obtain ⟨id, _, device, _, completed, _, start, hstart, finish, hfinish, hevent⟩ := hread
  cases hevent
  exact ⟨Endpoint.gives_reader.required hslots hstart,
    Endpoint.gives_reader.nullable.withDefault hslots (by simp) hfinish⟩

/-- The time of a mint is read as it is written. -/
theorem MintEvent.gives_timestamp :
    Gives (fun mint => ∀ t ∈ mint.timestamp, t.Kept) MintEvent.reader := by
  refine Gives.record fun slots depth mint hslots hread => ?_
  simp only [Option.bind_eq_bind, Option.bind_eq_some_iff] at hread
  obtain ⟨timestamp, htimestamp, _, _, _, _, _, _, hmint⟩ := hread
  cases hmint
  exact Instant.gives_reader.nullable.withDefault hslots (by simp) htimestamp

/-- Mints are read as they are written. -/
theorem MintEvent.gives_reader : Gives MintEvent.Kept MintEvent.reader :=
  fun depth raw mint hsound hread =>
    ⟨gives_timestamp depth raw mint hsound hread, yields_reader depth raw mint hread⟩

/-- Envelopes are read as they are written if their data are. -/
theorem CloudEvent.gives_reader {α : Type} {P : α → Prop} {read : Json.Reader α}
    (h : Gives P read) : Gives (CloudEvent.Kept P) (CloudEvent.reader read) := by
  refine Gives.record fun slots depth event hslots hread => ?_
  simp only [Option.bind_eq_bind, Option.bind_eq_some_iff] at hread
  obtain ⟨_, _, _, _, _, _, _, _, time, htime, _, _, data, hdata, hevent⟩ := hread
  cases hevent
  exact ⟨Instant.gives_reader.nullable.withDefault hslots (by simp) htime, h.required hslots hdata⟩

end Gives

section Inverts

namespace Json.Reader

variable {α : Type} {P : α → Prop} {read : Json.Reader α} {write : α → Json} {levels : Nat}

/-- Whether a reader reads back what is written of anything that satisfies `P`, when the text may
nest so many levels. -/
def Inverts (levels : Nat) (P : α → Prop) (read : Json.Reader α) (write : α → Json) : Prop :=
  ∀ depth a, P a → read (depth + levels) (write a).toRaw = some a

/-- Null stands for nothing. -/
theorem Inverts.nullable (h : Inverts levels P read write) (hnull : ∀ a, (write a).toRaw ≠ .null) :
    Inverts levels (fun found => ∀ a ∈ found, P a) read.nullable (ofOption write) := by
  intro depth found hfound
  cases found with
  | none => rfl
  | some a =>
    show read.nullable (depth + levels) (write a).toRaw = _
    have hread := h depth a (hfound a rfl)
    unfold Reader.nullable
    split
    · next hraw => exact absurd hraw (hnull a)
    · rw [hread]
      rfl

end Json.Reader

/-- Times are read back. -/
theorem Instant.inverts : Inverts 0 Instant.Kept Instant.reader Instant.toJson := by
  intro depth t ht
  have hread : Instant.reader (depth + 0) t.toJson.toRaw =
      (some (Rfc3339.write .exact t)).bind Relaxed.read? := rfl
  rw [hread, Option.bind_some, Rfc3339.read?_write .exact ht.1, Rfc3339.settle_exact ht.2]

/-- Points are read back. -/
theorem Point.inverts : Inverts 1 (fun _ => True) Point.reader Point.toJson := by
  intro depth p _
  simp [Point.reader, Point.toJson, Json.Reader.record, Json.toRaw, Json.toRawFields,
    Json.Slots.ofRaw?, Json.Slots.ofFields?, Json.Slots.find?, Json.Slots.required, Json.Slots.get,
    Json.Reader.double]

/-- Endpoints are read back. -/
theorem Endpoint.inverts : Inverts 2 Endpoint.Kept Endpoint.reader Endpoint.toJson := by
  intro depth endpoint hkept
  have htime : Instant.reader (depth + 1) endpoint.time.toJson.toRaw = some endpoint.time :=
    Instant.inverts (depth + 1) _ hkept.time
  have hlocation : Point.reader.nullable (depth + 1)
      (Json.ofOption Point.toJson endpoint.location).toRaw = some endpoint.location :=
    Point.inverts.nullable nofun depth _ fun _ _ => trivial
  simp [Endpoint.reader, Endpoint.toJson, Json.Reader.record, Json.toRaw, Json.toRawFields,
    Json.Slots.ofRaw?, Json.Slots.ofFields?, Json.Slots.find?, Json.Slots.required,
    Json.Slots.withDefault, Json.Slots.get, htime, hlocation]

/-- Segment events are read back. -/
theorem SegmentEvent.inverts :
    Inverts 3 SegmentEvent.Kept SegmentEvent.reader SegmentEvent.toJson := by
  intro depth event hkept
  have hstart : Endpoint.reader (depth + 2) event.start.toJson.toRaw = some event.start :=
    Endpoint.inverts depth _ hkept.start
  have hfinish : Endpoint.reader.nullable (depth + 2)
      (Json.ofOption Endpoint.toJson event.finish).toRaw = some event.finish :=
    Endpoint.inverts.nullable nofun depth _ hkept.finish
  simp [SegmentEvent.reader, SegmentEvent.toJson, Json.Reader.record, Json.toRaw, Json.toRawFields,
    Json.Slots.ofRaw?, Json.Slots.ofFields?, Json.Slots.find?, Json.Slots.required,
    Json.Slots.withDefault, Json.Slots.get, Json.Reader.string, Json.Reader.bool, hstart, hfinish]

/-- Mints are read back. -/
theorem MintEvent.inverts : Inverts 2 MintEvent.Kept MintEvent.reader MintEvent.toJson := by
  intro depth mint hkept
  have htimestamp : Instant.reader.nullable (depth + 1)
      (Json.ofOption Instant.toJson mint.timestamp).toRaw = some mint.timestamp :=
    Instant.inverts.nullable nofun (depth + 1) _ hkept.timestamp
  have huser : Json.Reader.string.nullable (depth + 1)
      (Json.ofOption Json.string mint.userId).toRaw = some mint.userId := by
    cases mint.userId with
    | none => rfl
    | some user => rfl
  obtain ⟨hlow, hhigh⟩ := hkept.token
  simp [MintEvent.reader, MintEvent.toJson, MintEvent.deviceReader, MintEvent.tokenReader,
    Json.Reader.record, Json.toRaw, Json.toRawFields, Json.ofInt, Json.Slots.ofRaw?,
    Json.Slots.ofFields?, Json.Slots.find?, Json.Slots.required, Json.Slots.withDefault,
    Json.Slots.get, Json.Reader.string, Json.Reader.int, htimestamp, huser, hlow, hhigh]

/-- Envelopes are read back if their data are. -/
theorem CloudEvent.inverts {α : Type} {P : α → Prop} {read : Json.Reader α} {write : α → Json}
    {levels : Nat} (h : Inverts levels P read write) :
    Inverts (levels + 1) (CloudEvent.Kept P) (CloudEvent.reader read)
      (CloudEvent.toJson write) := by
  intro depth event hkept
  have htime : Instant.reader.nullable (depth + levels)
      (Json.ofOption Instant.toJson event.time).toRaw = some event.time :=
    Instant.inverts.nullable nofun (depth + levels) _ hkept.time
  have hdata := h depth event.data hkept.data
  simp [CloudEvent.reader, CloudEvent.toJson, Json.Reader.record, Json.toRaw, Json.toRawFields,
    Json.Slots.ofRaw?, Json.Slots.ofFields?, Json.Slots.find?, Json.Slots.required,
    Json.Slots.withDefault, Json.Slots.get, Json.Reader.string, htime, hdata]

end Inverts

section Legible

open Json (Legible LegibleFields ReadsBack)

/-- A point is legible if its coordinates are read back. -/
theorem Point.legible {p : Point} (h : ∀ x ∈ p.coordinates, ReadsBack x) : p.toJson.Legible := by
  have hlatitude := h p.latitude List.mem_cons_self
  have hlongitude := h p.longitude (List.mem_cons_of_mem _ List.mem_cons_self)
  exact ⟨hlatitude, hlongitude, trivial⟩

/-- What may be missing is legible if it is when it is there. -/
theorem legible_ofOption {α : Type} {write : α → Json} {found : Option α}
    (h : ∀ a ∈ found, (write a).Legible) : (Json.ofOption write found).Legible := by
  cases found with
  | none => trivial
  | some a => exact h a rfl

/-- An endpoint is legible if its coordinates are read back. -/
theorem Endpoint.legible {endpoint : Endpoint} (h : ∀ x ∈ endpoint.coordinates, ReadsBack x) :
    endpoint.toJson.Legible := by
  refine ⟨trivial, legible_ofOption fun p hp => Point.legible fun x hx => h x ?_, trivial⟩
  exact List.mem_flatMap.mpr ⟨p, Option.mem_toList.mpr hp, hx⟩

/-- A segment event is legible if its coordinates are read back. -/
theorem SegmentEvent.legible {event : SegmentEvent} (h : ∀ x ∈ event.coordinates, ReadsBack x) :
    event.toJson.Legible := by
  refine ⟨trivial, trivial, trivial, Endpoint.legible fun x hx => h x ?_,
    legible_ofOption fun finish hfinish => Endpoint.legible fun x hx => h x ?_, trivial⟩
  · exact List.mem_append_left _ hx
  · exact List.mem_append_right _ (List.mem_flatMap.mpr ⟨finish, Option.mem_toList.mpr hfinish, hx⟩)

/-- A mint is legible if its token has sixty-four bits. -/
theorem MintEvent.legible {mint : MintEvent} (h : IsInt64 mint.tokenId) : mint.toJson.Legible := by
  have htoken : Json.InRange mint.tokenId := by
    refine ⟨h.1, Int.le_trans h.2 ?_⟩
    decide
  exact ⟨legible_ofOption fun _ _ => trivial, legible_ofOption fun _ _ => trivial,
    ⟨trivial, trivial⟩, ⟨htoken, trivial⟩, trivial⟩

/-- An envelope is legible if its data are. -/
theorem CloudEvent.legible {α : Type} {write : α → Json} {event : CloudEvent α}
    (h : (write event.data).Legible) : (event.toJson write).Legible :=
  ⟨trivial, trivial, trivial, trivial, legible_ofOption fun _ _ => trivial, trivial, h, trivial⟩

end Legible

/-- Whether the text of something is decoded to the same, and so written as that text again. -/
def Rewritten {α : Type} (read : Json.Reader α) (write : α → Json) (a : α) : Prop :=
  ∃ again, Json.decode? read (Utf8.encode (write a).text) = some again ∧ again = a ∧
    (write again).text = (write a).text

/-- What is legible and read back is rewritten. -/
theorem rewritten_of_inverts {α : Type} {P : α → Prop} {read : Json.Reader α} {write : α → Json}
    {levels : Nat} (h : Inverts levels P read write) (hlevels : levels ≤ Json.maxDepth) {a : α}
    (ha : P a) (hlegible : (write a).Legible) : Rewritten read write a := by
  refine ⟨a, ?_, rfl, rfl⟩
  have hread := h (Json.maxDepth - levels) a ha
  rw [Nat.sub_add_cancel hlevels] at hread
  unfold Json.decode?
  rw [Json.Raw.parse?_text hlegible]
  exact hread

/-- The text of a decoded event is decoded to an equal event, and that one has the same text. Of the
doubles it is taken that the finite ones of the event are read back as they are printed. -/
theorem events_rewritten (payload : Bytes) :
    (∀ event, Json.decode? (CloudEvent.reader SegmentEvent.reader) payload = some event →
      (∀ x ∈ event.data.coordinates, x.isFinite = true → Json.ReadsBack x) →
      Rewritten (CloudEvent.reader SegmentEvent.reader) (CloudEvent.toJson SegmentEvent.toJson)
        event) ∧
      ∀ event, Json.decode? (CloudEvent.reader MintEvent.reader) payload = some event →
        Rewritten (CloudEvent.reader MintEvent.reader) (CloudEvent.toJson MintEvent.toJson)
          event := by
  constructor
  · intro event hdecode hdoubles
    have hkept := (CloudEvent.gives_reader SegmentEvent.gives_reader).decode hdecode
    have hlegible : event.data.toJson.Legible := SegmentEvent.legible fun x hx =>
      hdoubles x hx (hkept.data.isFinite hx)
    exact rewritten_of_inverts (CloudEvent.inverts SegmentEvent.inverts) (by decide) hkept
      (CloudEvent.legible hlegible)
  · intro event hdecode
    have hkept := (CloudEvent.gives_reader MintEvent.gives_reader).decode hdecode
    exact rewritten_of_inverts (CloudEvent.inverts MintEvent.inverts) (by decide) hkept
      (CloudEvent.legible (MintEvent.legible hkept.data.token))

/-- A message in which the fields of a segment stand in an array, those of its start in another
order and those of the point in an array again, one of them an integer, with a leap second at an
offset. -/
def segmentSpelledOut : Bytes := Utf8.encode
  ("\x7b\"data\":[\"trip\",\"device\",true,\x7b\"location\":[48.5,-71]," ++
    "\"time\":\"2016-12-31 18:59:60.5-05:00\"\x7d],\"traceid\":[1]\x7d")

/-- The event of that message. -/
def segmentEvent : CloudEvent SegmentEvent where
  id := ""
  source := ""
  specversion := ""
  subject := ""
  time := none
  type := ""
  data := ⟨"trip", "device", true, ⟨⟨1483228799, 1500000000⟩, some ⟨48.5, -71.0⟩⟩, none⟩

/-- A message in which the fields of a mint stand in an array, with nulls for those left out. -/
def mintSpelledOut : Bytes := Utf8.encode
  "\x7b\"data\":[null,null,[\"device\"],\x7b\"tokenId\":-7\x7d],\"time\":null\x7d"

/-- The event of that message. -/
def mintEvent : CloudEvent MintEvent where
  id := ""
  source := ""
  specversion := ""
  subject := ""
  time := none
  type := ""
  data := ⟨none, none, "device", -7⟩

/-- Both messages are written in the plain form of their events, and decoded to them again. -/
theorem spelledOut_rewritten :
    Json.decode? (CloudEvent.reader SegmentEvent.reader) segmentSpelledOut = some segmentEvent ∧
      (∀ x ∈ segmentEvent.data.coordinates, x.isFinite = true → Json.ReadsBack x) ∧
      Json.decode? (CloudEvent.reader MintEvent.reader) mintSpelledOut = some mintEvent ∧
      Rewritten (CloudEvent.reader SegmentEvent.reader) (CloudEvent.toJson SegmentEvent.toJson)
        segmentEvent ∧
      Rewritten (CloudEvent.reader MintEvent.reader) (CloudEvent.toJson MintEvent.toJson)
        mintEvent := by
  have hsegment : Json.decode? (CloudEvent.reader SegmentEvent.reader) segmentSpelledOut =
      some segmentEvent := by decide +kernel
  have hdoubles : ∀ x ∈ segmentEvent.data.coordinates, x.isFinite = true → Json.ReadsBack x := by
    decide +kernel
  have hmint : Json.decode? (CloudEvent.reader MintEvent.reader) mintSpelledOut =
      some mintEvent := by decide +kernel
  exact ⟨hsegment, hdoubles, hmint,
    (events_rewritten segmentSpelledOut).1 _ hsegment hdoubles,
    (events_rewritten mintSpelledOut).2 _ hmint⟩

end TripArchive
