import TripArchive.Archive
import TripArchive.Store
import TripArchive.Telemetry

/-!
# Failed events

Why handling an event fails, what that says about handling it again, and in which stage it
happened. An event is acknowledged unless its failure is transient.
-/

namespace TripArchive

/-- What a failure says about handling the event again. -/
inductive ErrorClass
  /-- An unknown vehicle or segment: handling it again cannot succeed without new information. -/
  | notFound
  /-- A round trip failed: the event is left for another delivery. -/
  | transient
  /-- The event or its telemetry is malformed or contradictory. -/
  | invalid
  /-- The segment is past the event. -/
  | stale
  deriving DecidableEq, Repr

namespace ErrorClass

/-- What logs call a class. -/
def name : ErrorClass → String
  | notFound => "not_found"
  | transient => "transient"
  | invalid => "invalid"
  | stale => "stale"

/-- Whether a failed event is acknowledged all the same. -/
def acknowledges (c : ErrorClass) : Bool := c ≠ transient

end ErrorClass

/-- The stages of handling an event. -/
inductive Stage
  | lookup
  | state
  | store
  | telemetry
  | package
  | upload
  deriving DecidableEq, Repr

/-- What logs call a stage. -/
def Stage.name : Stage → String
  | lookup => "lookup"
  | state => "state"
  | store => "store"
  | telemetry => "telemetry"
  | package => "package"
  | upload => "upload"

/-- Why handling an event fails. -/
inductive SegmentError
  | vehicleNotFound (device : String)
  | alreadyClosed (id : String)
  | missingEnd (id : String)
  | store (error : Store.Error)
  | telemetry (error : Telemetry.Error)
  | package (error : Package.Error)
  | archive (error : Archive.Error)
  deriving DecidableEq, Repr

/-- The class of a refusal of the store. -/
def Store.Error.errorClass : Store.Error → ErrorClass
  | duplicate _ => .invalid
  | missingReference _ => .notFound
  | notOpen _ => .stale
  | database _ => .transient

/-- The class of an error of the search index. -/
def Telemetry.Error.errorClass : Telemetry.Error → ErrorClass
  | transport _ => .transient
  | status _ _ => .transient
  | decode _ => .invalid
  | missingSortKey => .invalid
  | encode _ => .invalid

/-- The class of an error of the archive network: a rejection passes if the network is overloaded
or at fault itself. -/
def Archive.Error.errorClass : Archive.Error → ErrorClass
  | transport _ => .transient
  | io _ => .transient
  | rejected status _ => if 500 ≤ status ∨ status = 429 then .transient else .invalid
  | malformed _ => .invalid
  | tooLarge _ => .invalid

namespace SegmentError

/-- The class of a failure. -/
def errorClass : SegmentError → ErrorClass
  | vehicleNotFound _ => .notFound
  | alreadyClosed _ => .stale
  | missingEnd _ => .invalid
  | store error => error.errorClass
  | telemetry error => error.errorClass
  | package _ => .invalid
  | archive error => error.errorClass

/-- The stage of a failure. -/
def stage : SegmentError → Stage
  | vehicleNotFound _ => .lookup
  | alreadyClosed _ => .state
  | missingEnd _ => .state
  | store _ => .store
  | telemetry _ => .telemetry
  | package _ => .package
  | archive _ => .upload

/-- The words for a failure. -/
def message : SegmentError → String
  | vehicleNotFound device => s!"no vehicle registered for device {device}"
  | alreadyClosed id => s!"segment {id} is already closed"
  | missingEnd id => s!"completion of segment {id} carries no end"
  | store error => s!"store: {error.message}"
  | telemetry error => s!"telemetry: {error.message}"
  | package error => s!"packaging: {error.message}"
  | archive error => s!"archive upload: {error.message}"

/-- Whether a handled event is acknowledged: after success, and after every failure but a transient
one. -/
def settles : Except SegmentError Unit → Bool
  | .ok () => true
  | .error e => e.errorClass.acknowledges

end SegmentError

end TripArchive
