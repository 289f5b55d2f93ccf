import TripArchive.Number.Numeral
import TripArchive.Text.Utf8

/-!
# Addresses of databases

What the URL of a database says about where it listens, and what comes of asking for a connection.
-/

namespace TripArchive.Database

/-- Where a database listens. A host that begins with a slash is the directory of a local socket. -/
structure Address where
  host : String
  port : Nat
  /-- Whether the connection has to be encrypted. -/
  encrypted : Bool
  deriving DecidableEq, Repr

namespace Address

/-- Whether a character may stand in a scheme after its first letter. -/
def isSchemeChar (c : Char) : Bool := c.isAlphanum || c == '+' || c == '-' || c == '.'

/-- The characters of a URL that count: line ends and tabs never do, and controls and blanks do not
at the ends. -/
def significant (url : String) : List Char :=
  let isEdge (c : Char) : Bool := c.toNat ≤ 0x20
  let inner := ((url.toList.dropWhile isEdge).reverse.dropWhile isEdge).reverse
  inner.filter fun c => c ≠ '\t' && c ≠ '\n' && c ≠ '\r'

/-- What follows the scheme of a URL. -/
def afterScheme? (chars : List Char) : Option (List Char) :=
  match chars.takeWhile isSchemeChar, chars.dropWhile isSchemeChar with
  | c :: _, ':' :: rest => if c.isAlpha then some rest else none
  | _, _ => none

/-- A port below the limit of sixteen bits. -/
def port? (digits : List Char) : Option Nat := do
  let n ← Numeral.ofDigits? 10 digits
  if n < span 16 then some n else none

/-- The host and port of an authority after its user; a port left empty or out is the default. -/
def hostPort? (default : Address) (chars : List Char) : Option Address :=
  let (host, rest) :=
    match chars with
    | '[' :: _ => (chars.takeWhile (· ≠ ']') ++ [']'], (chars.dropWhile (· ≠ ']')).drop 1)
    | _ => (chars.takeWhile (· ≠ ':'), chars.dropWhile (· ≠ ':'))
  let named := if host.isEmpty then default else { default with host := String.ofList host }
  match rest with
  | [] => some named
  | ':' :: digits =>
    if host.isEmpty then none
    else if digits.isEmpty then some named
    else (port? digits).map fun port => { named with port := port }
  | _ => none

/-- What follows the user of an authority. -/
def afterUser (authority : List Char) : List Char :=
  if authority.contains '@' then (authority.reverse.takeWhile (· ≠ '@')).reverse else authority

/-- The bytes of a text in which a percent sign and two digits stand for a byte and a plus for a
blank. -/
def formBytes : List Char → Bytes
  | '%' :: a :: b :: rest =>
    match Bytes.hexValue? a, Bytes.hexValue? b with
    | some high, some low => UInt8.ofNat (16 * high + low) :: formBytes rest
    | _, _ => 0x25 :: formBytes (a :: b :: rest)
  | '+' :: rest => 0x20 :: formBytes rest
  | c :: rest => Utf8.encode c.toString ++ formBytes rest
  | [] => []

/-- The text of a key or a value in a query. -/
def formText (chars : List Char) : String := Utf8.decodeLossy (formBytes chars)

/-- Takes one parameter of a query into an address. Parameters of other kinds do not matter. -/
def withParameter? (address : Address) (key value : String) : Option Address :=
  if key = "sslmode" ∨ key = "ssl-mode" then
    let mode := String.ofList (value.toList.map Char.toLower)
    if mode ∈ ["disable", "allow", "prefer"] then some { address with encrypted := false }
    else if mode ∈ ["require", "verify-ca", "verify-full"] then
      some { address with encrypted := true }
    else none
  else if key = "host" then some { address with host := value }
  else if key = "port" then do
    let n ← Numeral.nat? value.toList
    if n < span 16 then some { address with port := n } else none
  else some address

/-- Takes the parameters of a query into an address. -/
def withQuery? (address : Address) (query : List Char) : Option Address :=
  (query.splitOn '&').foldlM (fun address pair =>
    if pair.isEmpty then some address
    else
      withParameter? address (formText (pair.takeWhile (· ≠ '=')))
        (formText ((pair.dropWhile (· ≠ '=')).drop 1))) address

/-- The address that nothing is said about. -/
def standard : Address := ⟨"localhost", 5432, false⟩

/-- The address that a URL states, if it is the URL of a database. -/
def ofUrl? (url : String) : Option Address := do
  let rest ← afterScheme? (significant url)
  let rest := rest.takeWhile (· ≠ '#')
  let query := (rest.dropWhile (· ≠ '?')).drop 1
  let place := rest.takeWhile (· ≠ '?')
  let address ← match place with
    | '/' :: '/' :: place => hostPort? Address.standard (afterUser (place.takeWhile (· ≠ '/')))
    | _ => some Address.standard
  withQuery? address query

end Address

/-- What happens when a connection is asked for. -/
inductive Greeting
  | welcome
  | refusal (code : String)
  /-- Nobody answers, or the line is cut. -/
  | silence
  deriving DecidableEq, Repr

/-- Why there is no connection. -/
inductive ConnectError
  | address
  | unencrypted
  | refused (greeting : Greeting)
  deriving DecidableEq, Repr

/-- The words for a missing connection, whatever the reason. -/
def ConnectError.message (_ : ConnectError) : String := "Failed to connect to PostgreSQL"

/-- Asks for a connection. Encryption is not offered. -/
def connect (answers : Address → Greeting) (url : String) : Except ConnectError Unit :=
  match Address.ofUrl? url with
  | none => .error .address
  | some address =>
    if address.encrypted then .error .unencrypted
    else
      match answers address with
      | .welcome => .ok ()
      | greeting => .error (.refused greeting)

end TripArchive.Database
