import TripArchive.Text.Utf8

/-!
# HTTP exchanges

A request and what comes back. A reply whose body breaks off before its announced end is kept apart
from one that arrived in full.
-/

namespace TripArchive.Http

/-- A request as it is sent. -/
structure Request where
  method : String
  url : String
  contentType : Option String
  accept : String
  authorization : Option String
  body : Bytes
  deriving DecidableEq, Repr

/-- What comes back for a request. -/
inductive Exchange
  /-- No reply: no connection, or none that stayed open for one. -/
  | failed (reason : String)
  /-- A reply; `complete` says whether the body arrived up to its announced end. -/
  | reply (status : Nat) (body : Bytes) (complete : Bool)
  deriving DecidableEq, Repr

/-- Whether a status says that the request was refused. -/
def isRefusal (status : Nat) : Bool := 400 ≤ status

/-- The text of a body that says why a request was refused; nothing if it broke off. -/
def refusalText (body : Bytes) (complete : Bool) : String :=
  if complete then Utf8.decodeLossy body else ""

/-- A base address without the slashes at its end. -/
def trimSlashes (url : String) : String :=
  String.ofList (url.toList.reverse.dropWhile (· = '/')).reverse

/-- Whether a character is escaped in the path of an address. -/
def isEscaped (c : Char) : Bool :=
  c.toNat < 33 || 126 < c.toNat || c == '"' || c == '<' || c == '>' || c == '`' || c == '\x7b' ||
    c == '\x7d' || c == '#' || c == '?'

/-- A character of a path: its bytes in hexadecimal if it is escaped. -/
def escapeChar (c : Char) : List Char :=
  if isEscaped c then
    (Utf8.encode (String.singleton c)).flatMap fun b =>
      ['%', (Bytes.hexDigit (b.toNat / 16)).toUpper, (Bytes.hexDigit (b.toNat % 16)).toUpper]
  else [c]

/-- Leaves out the steps of a path that stay in place or go back; `done` holds the steps taken so
far from the last to the first. -/
def normalize : (done steps : List (List Char)) → List (List Char)
  | done, [] => done.reverse
  | done, [step] =>
    if step = ['.'] then ([] :: done).reverse
    else if step = ['.', '.'] then ([] :: done.tail).reverse
    else (step :: done).reverse
  | done, step :: steps =>
    if step = ['.'] then normalize done steps
    else if step = ['.', '.'] then normalize done.tail steps
    else normalize (step :: done) steps

/-- What a request asks a server for: the path of an address and its query. -/
def target (url : String) : String :=
  let chars := url.toList.filter fun c => c ≠ '\t' && c ≠ '\n' && c ≠ '\r'
  let afterScheme := (chars.dropWhile (· ≠ '/')).drop 2
  let located := (afterScheme.dropWhile fun c => c ≠ '/' && c ≠ '?' && c ≠ '#').takeWhile (· ≠ '#')
  let path := (located.takeWhile (· ≠ '?')).map fun c => if c = '\\' then '/' else c
  let query := located.dropWhile (· ≠ '?')
  let steps := normalize [] ((path.drop 1).splitOn '/')
  let written := steps.flatMap fun step => '/' :: step.flatMap escapeChar
  let asked := query.take 1 ++ (query.drop 1).flatMap escapeChar
  String.ofList (written ++ asked)

end TripArchive.Http
