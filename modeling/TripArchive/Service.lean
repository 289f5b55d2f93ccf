import TripArchive.Bus
import TripArchive.Config.Source
import TripArchive.Database.Address
import TripArchive.Database.Migration
import TripArchive.Log

/-!
# The service

Starting up in stages, each of which may end the run, and shutting down when a signal comes. A run
is described by the lines it logs and by what it asks of the database.
-/

namespace TripArchive.Service

/-- The stage that ended a run. -/
inductive Failure
  | configuration
  | metrics
  | signer
  | store
  | migrations
  | bus
  deriving DecidableEq, Repr

/-- The words for the stage that ended a run. -/
def Failure.message : Failure → String
  | configuration => "Failed to load configuration"
  | metrics => "Failed to install Prometheus metrics exporter"
  | signer => "Failed to load archive signing key"
  | store => "Failed to initialize metadata store"
  | migrations => "Failed to run database migrations"
  | bus => "Failed to initialize Kafka consumer"

/-- The signal that ends a run. -/
inductive Signal
  | interrupt
  | terminate
  deriving DecidableEq, Repr

/-- The line that a signal is logged with. -/
def Signal.message : Signal → String
  | interrupt => "Received Ctrl+C signal"
  | terminate => "Received SIGTERM signal"

/-- What a run finds around it. -/
structure Surroundings where
  file : Option Config.File
  environment : List (String × String)
  portTaken : Nat → Bool
  database : Database.Address → Database.Greeting
  ledger : Database.Ledger
  accepts : Database.Command → Bool
  readable : String → Bool
  signal : Signal

/-- What a run has logged, and which migration commands it has sent. -/
structure Report where
  lines : List Log.Line
  commands : List Database.Command

/-- A step of a run, which may end it. -/
abbrev Step (α : Type) := ExceptT Failure (StateM Report) α

namespace Step

/-- Logs a line. -/
def log (level : Log.Level) (message : String) (fields : List (String × Json)) : Step Unit :=
  modify fun report => { report with lines := report.lines ++ [⟨level, message, fields⟩] }

/-- Logs a line of ordinary weight. -/
def info (message : String) (fields : List (String × Json)) : Step Unit :=
  log .info message fields

/-- Ends the run at a stage unless that went well. -/
def require {ε α : Type} (failure : Failure) : Except ε α → Step α
  | .ok a => pure a
  | .error _ => throw failure

/-- Opens the port at which metrics are read. -/
def metrics (s : Surroundings) (config : Config) : Step Unit := do
  if s.portTaken config.service.metricsPort then throw .metrics
  info "Prometheus metrics exporter started" [("port", .ofInt config.service.metricsPort)]

/-- Loads the signer of the archive. -/
def signer (config : Config) : Step Signer := do
  let signer ← require .signer (Signer.ofBase64 config.archive.signerKey)
  info "Archive signer loaded" [("signer", .string signer.describe)]
  return signer

/-- Connects to the database. -/
def store (s : Surroundings) (config : Config) : Step Unit := do
  require .store (Database.connect s.database config.database.url)
  info "Connected to PostgreSQL database" []

/-- Brings the tables into shape, if that is switched on. -/
def migrations (s : Surroundings) (config : Config) : Step Unit := do
  if config.database.runMigrations then
    info "Running database migrations" []
    let (commands, result) := Database.migrate s.accepts s.ledger
    modify fun report => { report with commands := report.commands ++ commands }
    require .migrations result
    info "Database migrations completed" []

/-- Sets up the telemetry client and the archive, which cannot fail. -/
def clients (config : Config) : Step Unit := do
  info "Telemetry client initialized"
    [("url", .string config.search.url), ("index", .string config.search.index),
      ("page_size", .ofInt config.search.pageSize)]
  info "Archive uploader initialized"
    [("url", .string config.archive.url), ("currency", .string config.archive.currency)]

/-- Joins the bus. -/
def bus (s : Surroundings) (config : Config) : Step Router := do
  let router ← require .bus (Bus.join s.readable config.bus)
  info "Subscribed to Kafka topics"
    [("segment_topic", .string config.bus.segmentTopic),
      ("vehicle_topic", .string config.bus.vehicleTopic), ("group", .string config.bus.group)]
  return router

/-- The workers of a configuration: a queue and a number for each. -/
def workers (config : Config) : List (String × Nat) :=
  (List.range config.workers.count).map (fun n => ("segment", n)) ++ [("vehicle", 0)]

/-- Logs a line for every worker. -/
def eachWorker (config : Config) (message : String) : Step Unit :=
  (workers config).forM fun (queue, n) =>
    log .debug message [("queue", .string queue), ("worker_id", .ofInt n)]

/-- Starts the workers and the reader of the bus. -/
def begin (config : Config) : Step Unit := do
  info "Worker pool started" [("segment_workers", .ofInt config.workers.count)]
  eachWorker config "Worker started"
  info "Trips service started successfully"
    [("workers", .ofInt config.workers.count), ("data_fetch_enabled", .bool config.workers.fetch),
      ("upload_enabled", .bool config.workers.upload)]
  info "Starting trips Kafka consumer" []

/-- Stops everything after a signal. -/
def finish (config : Config) (signal : Signal) : Step Unit := do
  info signal.message []
  info "Shutting down trips service" []
  info "Trips Kafka consumer stopped" []
  eachWorker config "Worker stopped"
  info "Worker pool drained" []
  info "Trips service stopped" []

/-- All stages of a run under a configuration. -/
def all (s : Surroundings) (config : Config) : Step Unit := do
  info "Starting Trips Service" [("service", .string config.service.name)]
  metrics s config
  let _ ← signer config
  store s config
  migrations s config
  clients config
  let _ ← bus s config
  begin config
  finish config s.signal

end Step

/-- How a run ended: the stage that failed, if one did, the lines it has written, and the migration
commands it has sent. -/
structure Outcome where
  failure : Option Failure
  lines : List Log.Line
  commands : List Database.Command

/-- The exit code of a run. -/
def Outcome.exitCode (outcome : Outcome) : Nat := if outcome.failure.isSome then 1 else 0

/-- The variable that holds the filter of the log. -/
def filterVariable : String := "RUST_LOG"

/-- The rank up to which lines are written. -/
def logRank (s : Surroundings) (config : Config) : Nat :=
  Log.rankOf (s.environment.lookup filterVariable) config.service.logLevel

/-- Runs the service. Nothing is logged before the configuration is there. -/
def run (s : Surroundings) : Outcome :=
  match Config.load s.file s.environment with
  | .error _ => ⟨some .configuration, [], []⟩
  | .ok config =>
    let (result, report) := (ExceptT.run (Step.all s config)).run ⟨[], []⟩
    let failure := match result with
      | .ok () => none
      | .error failure => some failure
    ⟨failure, report.lines.filter fun line => line.level.rank ≤ logRank s config, report.commands⟩

end TripArchive.Service
