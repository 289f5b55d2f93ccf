import TripArchive.Database.Statement
import TripArchive.Store

/-!
# The tables in a database

The commands that carry out the operations of the store on a database, and what its replies mean.
Points are stored with the longitude first, and times in microseconds.
-/

namespace TripArchive.Database

/-! ## Times -/

/-- The second at which the database begins to count: the beginning of the year 2000. -/
def epoch : Int := 946684800

/-- The microseconds of a moment since 1970, cut off towards the beginning of the year 2000. -/
def micros (t : Instant) : Int :=
  Int.tdiv ((t.seconds - epoch) * 1000000000 + t.nanos) 1000 + epoch * 1000000

/-- The moment of microseconds since 1970. -/
def ofMicros (n : Int) : Instant := ⟨n / 1000000, (n % 1000000).toNat * 1000⟩

/-! ## Parameters -/

/-- A time as a parameter. -/
def time (t : Instant) : Value := .time (micros t)

/-- The coordinates of a point as parameters, the longitude first. -/
def coordinates (p : Option Point) : List Value :=
  [.ofOption (fun p => .double p.longitude) p, .ofOption (fun p => .double p.latitude) p]

/-! ## Commands -/

/-- The columns of a vehicle with the parameters they come from. -/
def vehicleColumns : List (String × Expr) := [("token_id", .param 1), ("user_device_id", .param 2)]

/-- Records a vehicle unless its token is known. -/
def upsertVehicle (device : String) (token : Int) : Command where
  statement := .insert "vehicles" vehicleColumns (some "token_id") false
  params := [.int token, .text device]

/-- Reads the vehicle of a device. -/
def selectVehicle (device : String) : Command where
  statement := .select [.column "token_id", .column "user_device_id"] "vehicles"
    [.equals "user_device_id" 1] none
  params := [.text device]

/-- The columns of a segment with the parameters they come from. -/
def segmentColumns : List (String × Expr) :=
  [("id", .param 1), ("vehicle_token_id", .param 2), ("start_time", .param 3),
    ("end_time", .param 4), ("start_position", .point 5 6),
    ("start_position_estimate", .point 7 8), ("end_position", .point 9 10),
    ("dropped_data", .param 11), ("encryption_key", .param 12), ("bundlr_id", .param 13)]

/-- The parameters of a segment. -/
def segmentParams (segment : Segment) : List Value :=
  [.text segment.id, .int segment.vehicleToken, time segment.startTime,
    .ofOption time segment.endTime] ++
    coordinates segment.startPosition ++ coordinates segment.startEstimate ++
    coordinates segment.endPosition ++
    [.bool segment.droppedData, .ofOption .bytes segment.encryptionKey,
      .ofOption .text segment.archiveId]

/-- Adds a segment. -/
def insertSegment (segment : Segment) : Command where
  statement := .insert "trips" segmentColumns none true
  params := segmentParams segment

/-- The columns that a completion changes with the parameters they come from. -/
def completionColumns : List (String × Expr) :=
  [("end_time", .param 2), ("end_position", .point 3 4), ("start_position_estimate", .point 5 6),
    ("dropped_data", .param 7), ("encryption_key", .param 8), ("bundlr_id", .param 9)]

/-- The parameters of a completion. -/
def completionParams (id : String) (completion : Completion) : List Value :=
  [.text id, time completion.endTime] ++ coordinates completion.endPosition ++
    coordinates completion.startEstimate ++
    [.bool completion.droppedData, .bytes completion.encryptionKey,
      .ofOption .text completion.archiveId]

/-- Closes a segment that is open. -/
def updateSegment (id : String) (completion : Completion) : Command where
  statement := .update "trips" completionColumns [.equals "id" 1, .isNull "end_time"]
  params := completionParams id completion

/-- What is read of a segment. -/
def segmentOutputs : List Output :=
  [.column "id", .column "vehicle_token_id", .column "start_time", .column "end_time",
    .coordinate "start_position" .x "start_lon", .coordinate "start_position" .y "start_lat",
    .coordinate "start_position_estimate" .x "start_est_lon",
    .coordinate "start_position_estimate" .y "start_est_lat",
    .coordinate "end_position" .x "end_lon", .coordinate "end_position" .y "end_lat",
    .column "dropped_data", .column "encryption_key", .column "bundlr_id"]

/-- Reads the segment with an identifier. -/
def selectSegment (id : String) : Command where
  statement := .select segmentOutputs "trips" [.equals "id" 1] none
  params := [.text id]

/-- Reads the closed segment of a vehicle that ended last. -/
def selectPrior (token : Int) : Command where
  statement := .select segmentOutputs "trips" [.equals "vehicle_token_id" 1, .notNull "end_time"]
    (some "end_time")
  params := [.int token]

/-! ## Rows -/

/-- A text that is not null. -/
def Value.text? : Value → Option String
  | .text s => some s
  | _ => none

/-- An integer that is not null. -/
def Value.int? : Value → Option Int
  | .int n => some n
  | _ => none

/-- A truth value that is not null. -/
def Value.bool? : Value → Option Bool
  | .bool b => some b
  | _ => none

/-- Bytes that are not null. -/
def Value.bytes? : Value → Option Bytes
  | .bytes b => some b
  | _ => none

/-- A time that is not null. -/
def Value.time? : Value → Option Instant
  | .time n => some (ofMicros n)
  | _ => none

/-- A point of two coordinates; it is absent without one of them. -/
def pointOf : (longitude latitude : Value) → Option Point
  | .double longitude, .double latitude => some ⟨latitude, longitude⟩
  | _, _ => none

/-- The vehicle of a row that was read. -/
def vehicleOf? (row : Row) : Option Vehicle := do
  let token ← (row.get "token_id").int?
  let device ← (row.get "user_device_id").text?
  some ⟨token, device⟩

/-- The segment of a row that was read. -/
def segmentOf? (row : Row) : Option Segment := do
  let id ← (row.get "id").text?
  let vehicleToken ← (row.get "vehicle_token_id").int?
  let startTime ← (row.get "start_time").time?
  let droppedData ← (row.get "dropped_data").bool?
  some {
    id, vehicleToken, startTime
    endTime := (row.get "end_time").time?
    startPosition := pointOf (row.get "start_lon") (row.get "start_lat")
    startEstimate := pointOf (row.get "start_est_lon") (row.get "start_est_lat")
    endPosition := pointOf (row.get "end_lon") (row.get "end_lat")
    droppedData
    encryptionKey := (row.get "encryption_key").bytes?
    archiveId := (row.get "bundlr_id").text? }

/-! ## Replies -/

/-- The code for a value that has to be unique and is not. -/
def uniqueViolation : String := "23505"

/-- The code for a reference to a row that is not there. -/
def referenceViolation : String := "23503"

/-- A command that failed for no reason the store knows. -/
def failure : Store.Error := .database "the command failed"

/-- What a reply says about adding something. -/
def added (what : String) : Reply → Except Store.Error Unit
  | .refused code =>
    if code = uniqueViolation then .error (.duplicate what)
    else if code = referenceViolation then .error (.missingReference what)
    else .error failure
  | .lost => .error failure
  | .rows _ => .ok ()
  | .affected _ => .ok ()

/-- What a reply says about recording the vehicle of a device. -/
def vehicleAdded (device : String) : Reply → Except Store.Error Unit :=
  added (Store.vehicleName device)

/-- What a reply says about adding a segment. -/
def segmentAdded (id : String) : Reply → Except Store.Error Unit := added (Store.segmentName id)

/-- What a reply says about closing a segment. -/
def segmentClosed (id : String) : Reply → Except Store.Error Unit
  | .affected count => if count = 0 then .error (.notOpen id) else .ok ()
  | .rows _ => .error (.notOpen id)
  | .refused _ => .error failure
  | .lost => .error failure

/-- What a reply says about the first row that was asked for. -/
def firstOf {α : Type} (of? : Row → Option α) : Reply → Except Store.Error (Option α)
  | .rows [] => .ok none
  | .rows (row :: _) =>
    match of? row with
    | none => .error failure
    | some a => .ok (some a)
  | .affected _ => .ok none
  | .refused _ => .error failure
  | .lost => .error failure

/-- What a reply says about a vehicle. -/
def vehicleRead : Reply → Except Store.Error (Option Vehicle) := firstOf vehicleOf?

/-- What a reply says about a segment. -/
def segmentRead : Reply → Except Store.Error (Option Segment) := firstOf segmentOf?

end TripArchive.Database
