import TripArchive.Event

/-!
# Telemetry

The records of a segment are read from a search index page by page, in the order of their
timestamps. Each request after the first asks for what comes after the sort key of the last record
seen, and a page that is not full ends the reading.
-/

namespace TripArchive.Telemetry

/-- Why telemetry cannot be read. -/
inductive Error
  /-- The request made no round trip. -/
  | transport (reason : String)
  /-- The index refused the request. -/
  | status (code : Nat) (body : String)
  /-- The answer is no page of records. -/
  | decode (reason : String)
  /-- The last record of a full page has no sort key. -/
  | missingSortKey
  /-- The records cannot be written. -/
  | encode (reason : String)
  deriving DecidableEq, Repr

/-- The words for an error. -/
def Error.message : Error → String
  | transport reason => s!"search request failed: {reason}"
  | status code body => s!"search index returned status {code}: {body}"
  | decode reason => s!"unexpected search response: {reason}"
  | missingSortKey => "full page ended with a hit that has no sort key"
  | encode reason => s!"failed to encode telemetry: {reason}"

/-- How the index writes timestamps. -/
inductive TimestampFormat
  | rfc3339
  | epochMillis
  deriving DecidableEq, Repr

/-- The format that a word names: RFC 3339 unless it names milliseconds. -/
def TimestampFormat.ofName (name : String) : TimestampFormat :=
  if name = "epoch_millis" then .epochMillis else .rfc3339

/-- What the index calls a format of timestamps. -/
def TimestampFormat.indexName : TimestampFormat → String
  | rfc3339 => "strict_date_optional_time"
  | epochMillis => "epoch_millis"

/-- A moment as the index writes it; both formats keep whole milliseconds. -/
def TimestampFormat.write : TimestampFormat → Instant → Json
  | rfc3339, t => .string (Rfc3339.write .millis t)
  | epochMillis, t => .ofInt t.millis

/-- Which records are asked for: those of a device from one moment to another. -/
structure Range where
  device : String
  start : Instant
  finish : Instant
  deriving DecidableEq, Repr

/-- How the index is asked. -/
structure Client where
  index : String
  pageSize : Nat
  format : TimestampFormat
  pageSize_pos : 0 < pageSize
  deriving DecidableEq

/-- The client for a configured page size; zero stands for one. -/
def Client.ofSettings (index : String) (pageSize : Nat) (format : TimestampFormat) : Client :=
  ⟨index, max pageSize 1, format, by omega⟩

/-- The field by which records are sorted and selected. -/
def timestampField : String := "data.timestamp"

/-- The request for one page; `cursor` is the sort key after which it begins. -/
def Client.query (client : Client) (range : Range) (cursor : Option (List Json)) : Json :=
  let limits : Json := .object
    [("format", .string client.format.indexName), ("gte", client.format.write range.start),
      ("lte", client.format.write range.finish)]
  let filter : Json := .array
    [.object [("term", .object [("subject", .string range.device)])],
      .object [("range", .object [(timestampField, limits)])]]
  let query : Json := .object [("bool", .object [("filter", filter)])]
  let sort : Json := .array [.object [(timestampField, .string "asc")]]
  let after := cursor.elim [] fun key => [("search_after", Json.array key)]
  .object (("query", query) :: (after ++ [("size", .ofInt client.pageSize), ("sort", sort)]))

/-- One record of a page with its sort key. -/
structure Hit where
  source : Json
  sort : Option (List Json)
  deriving Repr

/-- Reads a record of a page; one without a source counts as null. -/
def Hit.reader : Json.Reader Hit :=
  Json.Reader.record ["_source", "sort"] fun slots depth => do
    let source ← slots.withDefault 0 .null .value depth
    let sort ← slots.withDefault 1 none (.nullable (.list .value)) depth
    some ⟨source, sort⟩

/-- Reads the records inside the inner envelope of a page. -/
def hitsReader : Json.Reader (List Hit) :=
  Json.Reader.record ["hits"] fun slots depth =>
    slots.withDefault 0 [] (.list Hit.reader) depth

/-- Reads a page. -/
def pageReader : Json.Reader (List Hit) :=
  Json.Reader.record ["hits"] fun slots depth => slots.required 0 hitsReader depth

/-- A reading under way: what was read so far, and where the next page begins. -/
structure Reading where
  client : Client
  range : Range
  cursor : Option (List Json)
  records : List Json

/-- A reading before its first request. -/
def Reading.begin (client : Client) (range : Range) : Reading := ⟨client, range, none, []⟩

/-- The next request of a reading. -/
def Reading.query (reading : Reading) : Json := reading.client.query reading.range reading.cursor

/-- Where a reading stands after an answer. -/
inductive Progress
  | more (reading : Reading)
  | finished (result : Except Error (List Json))

/-- Takes the hits of a page into a reading. -/
def Reading.absorb (reading : Reading) (hits : List Hit) : Progress :=
  let records := reading.records ++ hits.map Hit.source
  if hits.length < reading.client.pageSize then .finished (.ok records)
  else
    match hits.getLast?.bind Hit.sort with
    | none => .finished (.error .missingSortKey)
    | some key => .more { reading with cursor := some key, records := records }

/-- Takes an answer into a reading. -/
def Reading.receive (reading : Reading) (answer : Except Error Json) : Progress :=
  match answer with
  | .error e => .finished (.error e)
  | .ok page =>
    match Json.convert? pageReader page with
    | none => .finished (.error (.decode "the answer is no page of records"))
    | some hits => reading.absorb hits

/-- Runs a reading on the answers of an index. It gives the requests that are sent, and the result
if one of the answers ends the reading. -/
def Reading.run (reading : Reading) :
    List (Except Error Json) → List Json × Option (Except Error (List Json))
  | [] => ([reading.query], none)
  | answer :: answers =>
    match reading.receive answer with
    | .finished result => ([reading.query], some result)
    | .more next =>
      let (queries, result) := next.run answers
      (reading.query :: queries, result)

/-- The bytes in which the records of a segment are archived. -/
def recordBytes (records : List Json) : Bytes := Utf8.encode (Json.array records).text

end TripArchive.Telemetry
