import TripArchive.Event
import TripArchive.Segment.Error

/-!
# Handling events

A handler is a program of single calls to its collaborators: the store, the source of keys and
nonces, the search index and the archive network. What a call answers decides how it goes on. The
calls are all that happens between two handlers at work side by side, so every interleaving of
handlers is an order of their calls.
-/

namespace TripArchive

/-- One call to a collaborator. -/
inductive Call
  | getSegment (id : String)
  | getVehicle (device : String)
  | priorSegment (token : Int)
  | insertSegment (segment : Segment)
  | updateSegment (id : String) (completion : Completion)
  | upsertVehicle (device : String) (token : Int)
  | generateKey
  | generateNonce
  | fetch (range : Telemetry.Range)
  | upload (item : Item)
  deriving DecidableEq

/-- What a call answers. -/
abbrev Call.Answer : Call → Type
  | getSegment _ => Except Store.Error (Option Segment)
  | getVehicle _ => Except Store.Error (Option Vehicle)
  | priorSegment _ => Except Store.Error (Option Segment)
  | insertSegment _ => Except Store.Error Unit
  | updateSegment _ _ => Except Store.Error Unit
  | upsertVehicle _ _ => Except Store.Error Unit
  | generateKey => Package.SegmentKey
  | generateNonce => Package.Nonce
  | fetch _ => Except Telemetry.Error Bytes
  | upload _ => Except Archive.Error Archive.Receipt

/-- A program of calls that ends in a value or fails. -/
inductive Handler (α : Type)
  | done (a : α)
  | fail (e : SegmentError)
  | call (c : Call) (next : c.Answer → Handler α)

namespace Handler

variable {α β : Type}

/-- Goes on with the value of a handler; a failure ends both. -/
def bind : Handler α → (α → Handler β) → Handler β
  | done a, f => f a
  | fail e, _ => fail e
  | call c next, f => call c fun answer => (next answer).bind f

instance : Monad Handler where
  pure := done
  bind := bind

/-- Goes on after a failure as it is told. -/
def recover : Handler α → (SegmentError → Handler α) → Handler α
  | done a, _ => done a
  | fail e, f => f e
  | call c next, f => call c fun answer => (next answer).recover f

/-- Runs a handler on a way to answer calls. -/
def run {m : Type → Type} [Monad m] (answer : (c : Call) → m c.Answer) :
    Handler α → m (Except SegmentError α)
  | done a => pure (.ok a)
  | fail e => pure (.error e)
  | call c next => do
    let a ← answer c
    (next a).run answer

/-- Makes one call. -/
def ask (c : Call) : Handler c.Answer := call c done

/-- Takes the value of an answer, or fails with its error. -/
def ofExcept {ε : Type} (wrap : ε → SegmentError) : Except ε α → Handler α
  | .ok a => done a
  | .error e => fail (wrap e)

/-- The segment with an identifier. -/
def getSegment (id : String) : Handler (Option Segment) :=
  call (.getSegment id) (ofExcept .store)

/-- The vehicle of a device. -/
def getVehicle (device : String) : Handler (Option Vehicle) :=
  call (.getVehicle device) (ofExcept .store)

/-- The segment of a vehicle that ended last. -/
def priorSegment (token : Int) : Handler (Option Segment) :=
  call (.priorSegment token) (ofExcept .store)

/-- Adds a segment. -/
def insertSegment (segment : Segment) : Handler Unit :=
  call (.insertSegment segment) (ofExcept .store)

/-- Closes a segment. -/
def updateSegment (id : String) (completion : Completion) : Handler Unit :=
  call (.updateSegment id completion) (ofExcept .store)

/-- Records a vehicle. -/
def upsertVehicle (device : String) (token : Int) : Handler Unit :=
  call (.upsertVehicle device token) (ofExcept .store)

/-- The telemetry of a range. -/
def fetch (range : Telemetry.Range) : Handler Bytes :=
  call (.fetch range) (ofExcept .telemetry)

/-- Uploads an item. -/
def upload (item : Item) : Handler Archive.Receipt :=
  call (.upload item) (ofExcept .archive)

end Handler

end TripArchive
