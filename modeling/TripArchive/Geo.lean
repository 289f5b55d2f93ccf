import TripArchive.Json.Record

/-!
# Positions

Points on the earth, their distance, and the rule by which the end of one trip stands in for the
start of the next: it has to be less than a quarter of a mile away.
-/

namespace TripArchive

/-- A position in degrees. -/
structure Point where
  latitude : Float
  longitude : Float
  deriving DecidableEq, Repr

namespace Point

/-- The radius of the earth in miles. -/
def earthRadius : Float := 3958.0

/-- The distance in miles below which two points count as one place. -/
def nearMiles : Float := 0.25

/-- Degrees as radians. -/
def radians (degrees : Float) : Float := degrees * (3.14159265358979323846 / 180.0)

/-- The sine of an angle; a zero of either sign is its own sine. -/
def sine (angle : Float) : Float := if angle == 0.0 then angle else angle.sin

/-- The cosine of an angle, which is one at zero. -/
def cosine (angle : Float) : Float := if angle == 0.0 then 1.0 else angle.cos

/-- The angle of a direction; on the positive axis it is the zero that stands upwards. -/
def direction (up right : Float) : Float :=
  if up == 0.0 && 0.0 < right then up else Float.atan2 up right

/-- The great-circle distance of two points in miles. -/
def distance (a b : Point) : Float :=
  let latitude₁ := radians a.latitude
  let latitude₂ := radians b.latitude
  let halfLatitude := sine (radians (b.latitude - a.latitude) / 2.0)
  let halfLongitude := sine (radians (b.longitude - a.longitude) / 2.0)
  let h := halfLatitude * halfLatitude +
    cosine latitude₁ * cosine latitude₂ * (halfLongitude * halfLongitude)
  2.0 * earthRadius * direction h.sqrt (1.0 - h).sqrt

/-- Whether a trip that ended at one point may have gone on from another. -/
def near (ended began : Point) : Bool := distance ended began < nearMiles

/-- `near` for points that may be unknown, which are near nothing. -/
def optionNear : Option Point → Option Point → Bool
  | some ended, some began => near ended began
  | _, _ => false

/-- Reads a point. -/
def reader : Json.Reader Point :=
  Json.Reader.record ["latitude", "longitude"] fun slots depth => do
    let latitude ← slots.required 0 .double depth
    let longitude ← slots.required 1 .double depth
    some ⟨latitude, longitude⟩

/-- A point as a value. -/
def toJson (p : Point) : Json :=
  .object [("latitude", .number (.double p.latitude)),
    ("longitude", .number (.double p.longitude))]

end Point

end TripArchive
