import Mathlib.Order.Lattice
import TripArchive.Proofs.Json.Canonical
import TripArchive.Proofs.Telemetry.Limits

/-!
# A search index

An index over finitely many records, listed in the order of their timestamps. It reads a query as
it was sent and answers with the first records that match the device and the limits and lie behind
the sort key of the query, as many as the query asks for. So the query of a client is answered with
records of its range (`Index.answer_query`).
-/

namespace TripArchive

namespace Telemetry

/-- A hit as it is kept. -/
def Hit.Canonical (hit : Hit) : Prop :=
  hit.source.Canonical ∧ ∀ key ∈ hit.sort, Json.CanonicalItems key

/-- Whether a moment lies in a range. What is asked for are whole milliseconds, so both ends stand
for the milliseconds in which they lie. -/
def Range.holds (range : Range) (t : Instant) : Bool :=
  1000000 * (range.start.sinceEpoch / 1000000) ≤ t.sinceEpoch &&
    t.sinceEpoch ≤ 1000000 * (range.finish.sinceEpoch / 1000000)

/-- A record in an index: who sent it, when, and what is kept of it. -/
structure Document (τ : Type) where
  device : String
  timestamp : τ
  source : Json
  canonical : source.Canonical

/-- An index over finitely many records. How it writes timestamps and pages is its own business, as
long as it can read its sort keys and its pages can be read. -/
structure Index (τ : Type) [LinearOrder τ] where
  documents : List (Document τ)
  /-- The records are listed in the order of their timestamps. -/
  ordered : documents.Pairwise fun a b => a.timestamp ≤ b.timestamp
  /-- The moment for which a timestamp stands. -/
  moment : τ → Instant
  /-- The sort key of a timestamp. -/
  key : τ → Json
  key_canonical : ∀ t, (key t).Canonical
  /-- The timestamp of a sort key. -/
  ofKey? : Json → Option τ
  ofKey?_key : ∀ t, ofKey? (key t) = some t
  /-- How a page is written. -/
  page : List Hit → Json
  page_reads : ∀ hits : List Hit, (∀ hit ∈ hits, hit.Canonical) →
    Json.convert? pageReader (page hits) = some hits

namespace Index

variable {τ : Type} [LinearOrder τ] (index : Index τ)

/-- A record as a hit. -/
def hit (document : Document τ) : Hit := ⟨document.source, some [index.key document.timestamp]⟩

/-- Whether a timestamp lies behind a sort key. Without one every timestamp does, and behind a key
that the index cannot read none does. -/
def isBehind (key : Option Json) (t : τ) : Bool :=
  key.all fun key => (index.ofKey? key).any fun last => last < t

/-- The records that a request is answered with. -/
def select (request : Request) (limits : Limits) : List (Document τ) :=
  (index.documents.filter fun document =>
    (document.device = request.device && limits.admit (index.moment document.timestamp)) &&
      index.isBehind request.behind document.timestamp).take request.size

/-- The answer to a query, as the index reads it. -/
def answer (query : Json) : Except Error Json :=
  match Request.ofQuery? query, Limits.ofQuery? query with
  | some request, some limits => .ok (index.page ((index.select request limits).map index.hit))
  | _, _ => .error (.status 400 "")

/-- The records of a range. -/
def matching (range : Range) : List (Document τ) :=
  index.documents.filter fun document =>
    document.device = range.device && range.holds (index.moment document.timestamp)

/-- The records of an index are canonical as hits. -/
theorem canonical_hit (document : Document τ) : (index.hit document).Canonical := by
  refine ⟨document.canonical, ?_⟩
  rintro _ ⟨⟩
  exact ⟨index.key_canonical _, trivial⟩

/-- The records that match are in the order of their timestamps. -/
theorem pairwise_matching (range : Range) :
    (index.matching range).Pairwise fun a b => a.timestamp ≤ b.timestamp :=
  index.ordered.sublist List.filter_sublist

/-- The query of a client is answered with a page of those records of the range that lie behind the
sort key, in whichever format it states the limits. -/
theorem answer_query (client : Client) {range : Range} (hstart : range.start.InCalendar)
    (hfinish : range.finish.InCalendar) (behind : Option Json) :
    index.answer (client.query range (behind.map fun key => [key])) =
      .ok (index.page ((((index.matching range).filter fun document =>
        index.isBehind behind document.timestamp).take client.pageSize).map index.hit)) := by
  have hbehind : ((behind.map fun key => [key]).bind fun key => key[0]?) = behind := by
    cases behind <;> rfl
  unfold answer
  rw [Request.ofQuery?_query, Limits.ofQuery?_query client _ hstart hfinish, hbehind]
  simp only [select, matching, List.filter_filter, Limits.admit, Range.holds, Instant.millis_eq,
    Bool.and_comm]

/-- Behind the sort key of a timestamp lie the greater ones. -/
theorem isBehind_key (last t : τ) :
    index.isBehind (some (index.key last)) t = decide (last < t) := by
  simp [isBehind, index.ofKey?_key]

end Index

/-- A hit in its plainest form. -/
def Hit.plain (hit : Hit) : Json :=
  .object [("_source", hit.source), ("sort", Json.ofOption Json.array hit.sort)]

/-- A page in its plainest form: its hits within two envelopes. -/
def plainPage (hits : List Hit) : Json :=
  .object [("hits", .object [("hits", .array (hits.map Hit.plain))])]

/-- A plain hit is read back. -/
theorem reader_plain {hit : Hit} (h : hit.Canonical) {depth : Nat}
    (hdepth : hit.plain.depth ≤ depth) : Hit.reader depth hit.plain.toRaw = some hit := by
  obtain ⟨source, sort⟩ := hit
  obtain ⟨hsource, hsort⟩ := h
  simp only [Hit.plain, Json.depth, Json.depthOfFields] at hdepth
  obtain ⟨below, rfl⟩ : ∃ below, depth = below + 1 := ⟨depth - 1, by omega⟩
  have hread : Json.Reader.value below source.toRaw = some source :=
    Json.value_toRaw source hsource (by omega)
  have hkey : (Json.Reader.list Json.Reader.value).nullable below
      (Json.ofOption Json.array sort).toRaw = some sort := by
    cases sort with
    | none => rfl
    | some key =>
      simp only [Json.ofOption, Json.depth] at hdepth
      obtain ⟨inner, rfl⟩ : ∃ inner, below = inner + 1 := ⟨below - 1, by omega⟩
      have hitems : Json.Reader.list Json.Reader.value (inner + 1) (Json.array (key.map id)).toRaw =
          some key := by
        refine Json.list_toRaw fun item hmem => ?_
        have hle := Json.depth_le_depthOfItems hmem
        exact Json.value_toRaw item ((hsort key rfl).of_mem hmem) (by omega)
      rw [List.map_id] at hitems
      show (Json.Reader.list Json.Reader.value (inner + 1) (Json.array key).toRaw).map some = _
      rw [hitems]
      rfl
  simp [Hit.plain, Hit.reader, Json.Reader.record, Json.toRaw, Json.toRawFields, Json.Slots.ofRaw?,
    Json.Slots.ofFields?, Json.Slots.find?, Json.Slots.withDefault, Json.Slots.get, hread, hkey]

/-- Plain pages are read back. -/
theorem plainPage_reads (hits : List Hit) (h : ∀ hit ∈ hits, hit.Canonical) :
    Json.convert? pageReader (plainPage hits) = some hits := by
  generalize hpage : Json.array (hits.map Hit.plain) = items
  have hitems : Json.Reader.list Hit.reader items.depth items.toRaw = some hits := by
    rw [← hpage]
    refine Json.list_toRaw fun hit hmem => reader_plain (h hit hmem) ?_
    exact Json.depth_le_depthOfItems (List.mem_map_of_mem hmem)
  simp [Json.convert?, plainPage, hpage, pageReader, hitsReader, Json.Reader.record, Json.depth,
    Json.depthOfFields, Json.toRaw, Json.toRawFields, Json.Slots.ofRaw?, Json.Slots.ofFields?,
    Json.Slots.find?, Json.Slots.withDefault, Json.Slots.required, Json.Slots.get, hitems]

end Telemetry

end TripArchive
