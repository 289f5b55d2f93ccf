import TripArchive.Telemetry

/-!
# Reading a query

What an index takes from a query as it was sent: whose records are asked for, within which limits,
how many of them, and the sort key behind which they lie.
-/

namespace TripArchive

namespace Json

/-- The field of an object with a name. -/
def field? (name : String) : Json → Option Json
  | .object fields => (fields.find? fun field => field.1 = name).map Prod.snd
  | _ => none

/-- The items of an array. -/
def items? : Json → Option (List Json)
  | .array items => some items
  | _ => none

/-- The text of a string. -/
def string? : Json → Option String
  | .string s => some s
  | _ => none

/-- The value of an integer that is not negative. -/
def nat? : Json → Option Nat
  | .number (.int n) => n.toNat?
  | _ => none

end Json

namespace Telemetry

/-- What a query asks for: how many records of a device within limits, and the sort key behind
which they lie. -/
structure Request where
  device : String
  limits : Json
  size : Nat
  behind : Option Json

/-- The limits of a range as a query states them. -/
def TimestampFormat.limits (format : TimestampFormat) (range : Range) : Json :=
  .object [("format", .string format.indexName), ("gte", format.write range.start),
    ("lte", format.write range.finish)]

/-- Reads a query. Only the ascending order of timestamps can be asked for. -/
def Request.ofQuery? (query : Json) : Option Request := do
  let size ← (← query.field? "size").nat?
  let order ← (← (← query.field? "sort").items?)[0]?
  let filters ← (← (← (← query.field? "query").field? "bool").field? "filter").items?
  let device ← (← (← (← filters[0]?).field? "term").field? "subject").string?
  let limits ← (← (← filters[1]?).field? "range").field? timestampField
  let behind := (query.field? "search_after").bind fun key => key.items?.bind fun items => items[0]?
  let direction ← (← order.field? timestampField).string?
  if direction = "asc" then some ⟨device, limits, size, behind⟩ else none

/-- A query states the device, the limits, the size of a page and the sort key. -/
theorem Request.ofQuery?_query (client : Client) (range : Range) (cursor : Option (List Json)) :
    Request.ofQuery? (client.query range cursor) = some ⟨range.device, client.format.limits range,
      client.pageSize, cursor.bind fun key => key[0]?⟩ := by
  cases cursor with
  | none => rfl
  | some key => rfl

end Telemetry

end TripArchive
