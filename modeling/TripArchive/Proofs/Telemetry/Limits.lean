import TripArchive.Proofs.Telemetry.Query
import TripArchive.Proofs.Time.Reading

/-!
# The limits of a query

An index reads the limits of a query in the format that the query names, and compares moments by
the nanoseconds since 1970. Both formats state the same limits: those of the range, rounded down to
the millisecond (`ofQuery?_query`). So a query selects every whole millisecond of the range, nothing
after it, and nothing that comes a millisecond or more before it (`limits_rounded_down`).
-/

namespace TripArchive

/-- The nanoseconds since 1970. Those of a leap second count on from the second before it. -/
def Instant.sinceEpoch (t : Instant) : Int := t.seconds * 1000000000 + t.nanos

namespace Instant

/-- Milliseconds are rounded to the past. -/
theorem millis_eq (t : Instant) : t.millis = t.sinceEpoch / 1000000 := by
  unfold millis sinceEpoch
  omega

/-- With three digits of its fraction a moment is written as the whole millisecond it lies in. -/
theorem sinceEpoch_settle {t : Instant} (h : t.nanos < 2000000000) :
    (Rfc3339.Precision.millis.settle t).sinceEpoch = 1000000 * t.millis := by
  unfold Rfc3339.Precision.settle Rfc3339.Precision.keep sinceEpoch millis
  dsimp only
  split
  · dsimp only
    omega
  · dsimp only
    omega

end Instant

namespace Telemetry

/-- The limits of a query in nanoseconds since 1970, both included. -/
structure Limits where
  first : Int
  last : Int
  deriving DecidableEq, Repr

/-- Whether a moment lies within limits. -/
def Limits.admit (limits : Limits) (t : Instant) : Bool :=
  limits.first ≤ t.sinceEpoch && t.sinceEpoch ≤ limits.last

/-- The format that the index calls by a name. -/
def TimestampFormat.ofIndexName? (name : String) : Option TimestampFormat :=
  [rfc3339, epochMillis].find? fun format => format.indexName = name

/-- The nanoseconds since 1970 that a limit states in a format. -/
def TimestampFormat.read? : TimestampFormat → Json → Option Int
  | rfc3339, .string text => (Relaxed.read? text).map Instant.sinceEpoch
  | epochMillis, .number (.int n) => some (1000000 * n)
  | _, _ => none

/-- The two limits as a query writes them. -/
def written? (query : Json) : Option (Json × Json) := do
  let request ← Request.ofQuery? query
  some (← request.limits.field? "gte", ← request.limits.field? "lte")

/-- The limits as an index reads them. -/
def Limits.ofQuery? (query : Json) : Option Limits := do
  let request ← Request.ofQuery? query
  let format ← TimestampFormat.ofIndexName? (← (← request.limits.field? "format").string?)
  let (first, last) ← written? query
  some ⟨← format.read? first, ← format.read? last⟩

/-- Whether a query selects what a device sent at a moment. -/
def selects (query : Json) (device : String) (t : Instant) : Bool :=
  (Request.ofQuery? query).any (fun request => request.device = device) &&
    (Limits.ofQuery? query).any fun limits => limits.admit t

variable {client : Client} {range : Range}

/-- A query writes the limits in the format of its client. -/
theorem written?_query (client : Client) (range : Range) (cursor : Option (List Json)) :
    written? (client.query range cursor) =
      some (client.format.write range.start, client.format.write range.finish) := by
  unfold written?
  rw [Request.ofQuery?_query]
  rfl

/-- A limit is read in either format as the moment rounded down to the millisecond. -/
theorem TimestampFormat.read?_write (format : TimestampFormat) {t : Instant} (h : t.InCalendar) :
    format.read? (format.write t) = some (1000000 * t.millis) := by
  cases format with
  | rfc3339 =>
    simp only [TimestampFormat.write, TimestampFormat.read?, Rfc3339.read?_write .millis h,
      Option.map_some, Instant.sinceEpoch_settle h.2]
  | epochMillis => rfl

/-- The limits of a query are those of the range, rounded down to the millisecond. -/
theorem Limits.ofQuery?_query (client : Client) (cursor : Option (List Json))
    (hstart : range.start.InCalendar) (hfinish : range.finish.InCalendar) :
    Limits.ofQuery? (client.query range cursor) =
      some ⟨1000000 * range.start.millis, 1000000 * range.finish.millis⟩ := by
  have hformat : TimestampFormat.ofIndexName? client.format.indexName = some client.format := by
    cases client.format with
    | rfc3339 => rfl
    | epochMillis => rfl
  have hname : ((client.format.limits range).field? "format").bind Json.string? =
      some client.format.indexName := rfl
  unfold Limits.ofQuery?
  rw [Request.ofQuery?_query, written?_query]
  simp only [bind, Option.bind_some]
  rw [← Option.bind_assoc, hname]
  simp only [Option.bind_some, hformat, client.format.read?_write hstart,
    client.format.read?_write hfinish]

/-- What a query selects: what the device sent from the first whole millisecond that is not after
the start to the last one that is not after the end. -/
theorem selects_query_iff (client : Client) (cursor : Option (List Json))
    (hstart : range.start.InCalendar) (hfinish : range.finish.InCalendar) (device : String)
    (t : Instant) :
    selects (client.query range cursor) device t = true ↔
      device = range.device ∧ 1000000 * range.start.millis ≤ t.sinceEpoch ∧
        t.sinceEpoch ≤ 1000000 * range.finish.millis := by
  unfold selects
  rw [Request.ofQuery?_query, Limits.ofQuery?_query client cursor hstart hfinish]
  simp only [Option.any_some, Limits.admit, Bool.and_eq_true, decide_eq_true_eq]
  exact and_congr_left' eq_comm

/-- The two ways to write the limits of a range agree. Read back, the texts are the whole
milliseconds that are written as numbers, those of the range rounded down, and both queries select
the same records. Of the range itself they select every whole millisecond, and of what is outside
only what comes less than a millisecond before it. -/
theorem limits_rounded_down (index : String) (pageSize : Nat) (cursor : Option (List Json))
    (hstart : range.start.InCalendar) (hfinish : range.finish.InCalendar) :
    let texts := (Client.ofSettings index pageSize .rfc3339).query range cursor
    let counts := (Client.ofSettings index pageSize .epochMillis).query range cursor
    (∃ firstText lastText : String, ∃ first last : Instant,
      written? texts = some (.string firstText, .string lastText) ∧
        Relaxed.read? firstText = some first ∧ Relaxed.read? lastText = some last ∧
        first.sinceEpoch = 1000000 * (range.start.sinceEpoch / 1000000) ∧
        last.sinceEpoch = 1000000 * (range.finish.sinceEpoch / 1000000) ∧
        written? counts = some (.ofInt (first.sinceEpoch / 1000000),
          .ofInt (last.sinceEpoch / 1000000))) ∧
      (∀ device t, selects texts device t = selects counts device t) ∧
      (∀ t, t.sinceEpoch % 1000000 = 0 → range.start.sinceEpoch ≤ t.sinceEpoch →
        t.sinceEpoch ≤ range.finish.sinceEpoch → selects texts range.device t = true) ∧
      ∀ device t, selects texts device t = true → device = range.device ∧
        range.start.sinceEpoch - 1000000 < t.sinceEpoch ∧
        t.sinceEpoch ≤ range.finish.sinceEpoch := by
  intro texts counts
  have hselects (format : TimestampFormat) (device : String) (t : Instant) :=
    selects_query_iff (Client.ofSettings index pageSize format) cursor hstart hfinish device t
  simp only [Instant.millis_eq] at hselects
  refine ⟨?_, ?_, ?_, ?_⟩
  · have hfirst := Instant.sinceEpoch_settle hstart.2
    have hlast := Instant.sinceEpoch_settle hfinish.2
    refine ⟨_, _, _, _, written?_query _ range cursor, Rfc3339.read?_write .millis hstart,
      Rfc3339.read?_write .millis hfinish, ?_, ?_, ?_⟩
    · rw [hfirst, Instant.millis_eq]
    · rw [hlast, Instant.millis_eq]
    · rw [hfirst, hlast, Int.mul_ediv_cancel_left _ (by decide),
        Int.mul_ediv_cancel_left _ (by decide)]
      exact written?_query _ range cursor
  · intro device t
    exact Bool.eq_iff_iff.mpr ((hselects .rfc3339 device t).trans
      (hselects .epochMillis device t).symm)
  · intro t hwhole hafter hbefore
    exact (hselects .rfc3339 range.device t).mpr ⟨rfl, by omega, by omega⟩
  · intro device t hselected
    obtain ⟨hdevice, hafter, hbefore⟩ := (hselects .rfc3339 device t).mp hselected
    exact ⟨hdevice, by omega, by omega⟩

/-- A range from half a second into a leap second before 1970 to the last moment of the calendar. -/
def farRange : Range :=
  ⟨"did:erc721:137:0x325b7510adc2e26b84a11d02aee1c4b6bb2be47d:7", ⟨-1, 1500600000⟩,
    ⟨8210266876799, 1999999999⟩⟩

/-- The first whole millisecond of such a range is selected, in both formats. -/
theorem farRange_selected :
    farRange.start.InCalendar ∧ farRange.finish.InCalendar ∧
      ∀ format, selects ((Client.ofSettings "vss" 1000 format).query farRange none)
        farRange.device ⟨0, 501000000⟩ = true := by
  have hstart : farRange.start.InCalendar := by decide
  have hfinish : farRange.finish.InCalendar := by decide
  obtain ⟨-, hsame, hinside, -⟩ := limits_rounded_down "vss" 1000 none hstart hfinish
  have hselected := hinside ⟨0, 501000000⟩ (by decide) (by decide) (by decide)
  refine ⟨hstart, hfinish, fun format => ?_⟩
  cases format with
  | rfc3339 => exact hselected
  | epochMillis => exact hsame _ _ ▸ hselected

end Telemetry

end TripArchive
