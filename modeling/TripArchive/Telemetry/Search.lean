import TripArchive.Http
import TripArchive.Telemetry
import TripArchive.Text.Base64

/-!
# The search index over HTTP

How a page is asked for in a request, and what an exchange means for the reading.
-/

namespace TripArchive.Telemetry

/-- Where the index is and who asks. -/
structure Endpoint where
  url : String
  username : Option String
  password : Option String
  deriving DecidableEq, Repr

namespace Endpoint

/-- The credentials of a request; both parts are needed. -/
def authorization (endpoint : Endpoint) : Option String :=
  match endpoint.username, endpoint.password with
  | some username, some password =>
    some ("Basic " ++ Base64.encode (Utf8.encode (username ++ ":" ++ password)))
  | _, _ => none

/-- The request for a page. -/
def request (endpoint : Endpoint) (index : String) (query : Json) : Http.Request where
  method := "POST"
  url := Http.trimSlashes endpoint.url ++ "/" ++ index ++ "/_search"
  contentType := some "application/json"
  accept := "application/json"
  authorization := endpoint.authorization
  body := Utf8.encode query.text

end Endpoint

/-- What an exchange with the index says. A body that broke off is no JSON text. -/
def ofExchange : Http.Exchange → Except Error Json
  | .failed reason => .error (.transport reason)
  | .reply status body complete =>
    if Http.isRefusal status then .error (.status status (Http.refusalText body complete))
    else if !complete then .error (.decode "the body broke off")
    else
      match Json.parse? body with
      | none => .error (.decode "the body is no JSON text")
      | some page => .ok page

end TripArchive.Telemetry
