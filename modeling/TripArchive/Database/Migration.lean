import TripArchive.Database.Statement
import TripArchive.Hash.Sha2
import TripArchive.Text.Utf8

/-!
# Migrations

The scripts that bring a database's tables into shape. The database keeps a ledger of the versions
it has run with a digest of each script, and is refused if the ledger does not fit the scripts.
-/

namespace TripArchive.Database

/-- A script with its version. -/
structure Migration where
  version : Int
  description : String
  text : String
  deriving DecidableEq, Repr

namespace Migration

/-- The digest of a script. -/
def checksum (migration : Migration) : Bytes := Sha2.sha384 (Utf8.encode migration.text)

/-- Runs a script. -/
def run (migration : Migration) : Command := ⟨.script migration.text, []⟩

/-- Enters a script that has been run into the ledger. -/
def record (migration : Migration) : Command where
  statement := .insert "_sqlx_migrations"
    [("version", .param 1), ("description", .param 2), ("success", .bool true),
      ("checksum", .param 3), ("execution_time", .int (-1))] none true
  params := [.int migration.version, .text migration.description, .bytes migration.checksum]

/-- The lines of the script that makes the two tables. -/
def tableLines : List String :=
  ["CREATE TABLE IF NOT EXISTS vehicles (",
    "    token_id        BIGINT PRIMARY KEY,",
    "    user_device_id  TEXT NOT NULL UNIQUE,",
    "    encryption_key  BYTEA",
    ");",
    "",
    "CREATE TABLE IF NOT EXISTS trips (",
    "    id                       TEXT PRIMARY KEY,",
    "    vehicle_token_id         BIGINT NOT NULL REFERENCES vehicles (token_id),",
    "    start_time               TIMESTAMPTZ NOT NULL,",
    "    end_time                 TIMESTAMPTZ,",
    "    start_position           POINT,",
    "    start_position_estimate  POINT,",
    "    end_position             POINT,",
    "    encryption_key           BYTEA,",
    "    bundlr_id                TEXT,",
    "    dropped_data             BOOLEAN NOT NULL DEFAULT FALSE,",
    "    CONSTRAINT trips_single_start CHECK (",
    "        start_position IS NULL OR start_position_estimate IS NULL",
    "    )",
    ");",
    "",
    "-- Most recent closed segment per vehicle.",
    "CREATE INDEX IF NOT EXISTS trips_vehicle_end_time_idx",
    "    ON trips (vehicle_token_id, end_time DESC)",
    "    WHERE end_time IS NOT NULL;"]

/-- The script that makes the two tables. -/
def tables : Migration where
  version := 20230801000000
  description := "create vehicles and trips"
  text := String.join (tableLines.map fun line => line ++ "\n")

/-- All scripts in the order of their versions. -/
def all : List Migration := [tables]

end Migration

/-- What a database knows about the scripts it has run. -/
structure Ledger where
  /-- A version that was begun and failed. -/
  dirty : Option Int
  /-- The versions that were run, with their digests. -/
  applied : List (Int × Bytes)
  deriving DecidableEq, Repr

/-- Why the scripts cannot be run. -/
inductive MigrationFault
  /-- A version was begun and failed. -/
  | dirty (version : Int)
  /-- The ledger has a version without a script. -/
  | missing (version : Int)
  /-- A script has changed since it was run. -/
  | changed (version : Int)
  /-- A command failed. -/
  | refused (version : Int)
  deriving DecidableEq, Repr

/-- Runs the scripts that are not in the ledger. `accepts` says which commands succeed. It gives the
commands that are sent, and why the rest of them were not. -/
def runAll (accepts : Command → Bool) (ledger : Ledger) :
    List Migration → List Command × Except MigrationFault Unit
  | [] => ([], .ok ())
  | migration :: migrations =>
    match ledger.applied.lookup migration.version with
    | some checksum =>
      if checksum = migration.checksum then runAll accepts ledger migrations
      else ([], .error (.changed migration.version))
    | none =>
      if !accepts migration.run then ([migration.run], .error (.refused migration.version))
      else if !accepts migration.record then
        ([migration.run, migration.record], .error (.refused migration.version))
      else
        let (commands, result) := runAll accepts ledger migrations
        (migration.run :: migration.record :: commands, result)

/-- Brings a database's tables into shape. -/
def migrate (accepts : Command → Bool) (ledger : Ledger) :
    List Command × Except MigrationFault Unit :=
  match ledger.dirty with
  | some version => ([], .error (.dirty version))
  | none =>
    let known (version : Int) : Bool :=
      Migration.all.any fun migration => migration.version == version
    match ledger.applied.find? fun entry => !known entry.1 with
    | some (version, _) => ([], .error (.missing version))
    | none => runAll accepts ledger Migration.all

end TripArchive.Database
