import TripArchive.Http
import TripArchive.Item
import TripArchive.Json.Record

/-!
# The archive network

Uploading and downloading items over HTTP, and what an exchange means for the item.
-/

namespace TripArchive.Archive

/-- Why an upload or a download fails. -/
inductive Error
  /-- The request made no round trip. -/
  | transport (reason : String)
  /-- The network refused the request. -/
  | rejected (status : Nat) (body : String)
  /-- The response broke off. -/
  | io (reason : String)
  /-- What was downloaded is no item. -/
  | malformed (error : Item.Error)
  /-- What was downloaded exceeds the limit. -/
  | tooLarge (limit : Nat)
  deriving DecidableEq, Repr

/-- The words for an error. -/
def Error.message : Error → String
  | transport reason => s!"archive network request failed: {reason}"
  | rejected status body => s!"archive network rejected item with status {status}: {body}"
  | io reason => s!"failed to read archive network response: {reason}"
  | malformed error => s!"downloaded item is malformed: {error.message}"
  | tooLarge limit => s!"downloaded item exceeds {limit} bytes"

/-- What the network says about an accepted item. -/
structure Receipt where
  id : String
  timestamp : Option Nat
  deriving DecidableEq, Repr

namespace Receipt

/-- A receipt that says nothing. -/
def blank : Receipt := ⟨"", none⟩

/-- Reads a receipt; nothing in it is required. -/
def reader : Json.Reader Receipt :=
  Json.Reader.record ["id", "timestamp"] fun slots depth => do
    let id ← slots.withDefault 0 "" .string depth
    let timestamp ← slots.withDefault 1 none (.nullable (.int 0 maxNat64)) depth
    some ⟨id, timestamp.map Int.toNat⟩

/-- The receipt of a text, if it holds one. -/
def ofText? (text : String) : Option Receipt := Json.decode? reader (Utf8.encode text)

end Receipt

/-- Where the network is and in which currency uploads are paid. -/
structure Gateway where
  url : String
  currency : String
  deriving DecidableEq, Repr

/-- The most bytes of an item that are downloaded. -/
def maxDownloadBytes : Nat := 512 * 1024 * 1024

namespace Gateway

/-- Where items are uploaded. -/
def uploadUrl (gateway : Gateway) : String :=
  Http.trimSlashes gateway.url ++ "/tx/" ++ gateway.currency

/-- The request that uploads an item. -/
def uploadRequest (gateway : Gateway) (item : Item) : Http.Request where
  method := "POST"
  url := gateway.uploadUrl
  contentType := some "application/octet-stream"
  accept := "*/*"
  authorization := none
  body := item.toBytes

/-- The request that downloads an item. -/
def downloadRequest (gateway : Gateway) (id : String) : Http.Request where
  method := "GET"
  url := Http.trimSlashes gateway.url ++ "/" ++ id
  contentType := none
  accept := "*/*"
  authorization := none
  body := []

end Gateway

/-- What an exchange says about the body that was asked for. -/
def bodyOf : Http.Exchange → Except Error Bytes
  | .failed reason => .error (.transport reason)
  | .reply status body complete =>
    if Http.isRefusal status then .error (.rejected status (Http.refusalText body complete))
    else if complete then .ok body
    else .error (.io "the body broke off")

/-- What an exchange says about an upload. An accepted item needs no readable receipt. -/
def uploaded (exchange : Http.Exchange) : Except Error Receipt := do
  let body ← bodyOf exchange
  .ok ((Receipt.ofText? (Utf8.decodeLossy body)).getD Receipt.blank)

/-- What an exchange says about a download. -/
def downloaded (exchange : Http.Exchange) : Except (Failure Error) Item := do
  let body ← bodyOf exchange
  if maxDownloadBytes < body.length then .error (.refused (.tooLarge maxDownloadBytes))
  else (Item.ofBytes body).mapError (Failure.map .malformed)

end TripArchive.Archive
