import TripArchive.Archive
import TripArchive.Config.Section
import TripArchive.Segment.Processor

/-!
# Configuration

What the service is told about itself and the systems around it, and how it is read from settings.
A configuration under which no work could be done is refused.
-/

namespace TripArchive

namespace Config

/-- A number below the limit of sixteen bits. -/
def nat16? : Setting → Option Nat := Setting.natBelow? (span 16)

/-- A number below the limit of thirty-two bits. -/
def nat32? : Setting → Option Nat := Setting.natBelow? (span 32)

/-- A number below the limit of sixty-four bits. -/
def nat64? : Setting → Option Nat := Setting.natBelow? (span 64)

/-- How the service presents itself. -/
structure Service where
  name : String
  logLevel : String
  metricsPort : Nat
  deriving DecidableEq, Repr

/-- Reads how the service presents itself. -/
def Service.ofSection? (s : Section) : Option Service := do
  let name ← s.withDefault 0 "name" Setting.text? "trips-service"
  let logLevel ← s.withDefault 1 "log_level" Setting.text? "info"
  let metricsPort ← s.withDefault 2 "metrics_port" nat16? 9090
  some { name, logLevel, metricsPort }

/-- Where events come from. -/
structure Bus where
  servers : String
  group : String
  segmentTopic : String
  vehicleTopic : String
  secure : Bool
  authority : Option String
  username : Option String
  password : Option String
  offsetReset : String
  sessionTimeout : Nat
  pollInterval : Nat
  deriving DecidableEq, Repr

/-- Reads where events come from. -/
def Bus.ofSection? (s : Section) : Option Bus := do
  let servers ← s.required 0 "bootstrap_servers" Setting.text?
  let group ← s.withDefault 1 "consumer_group" Setting.text? "trips-api"
  let segmentTopic ← s.withDefault 2 "segment_topic" Setting.text? "topic.device.segments"
  let vehicleTopic ← s.withDefault 3 "vehicle_topic" Setting.text? "topic.event"
  let secure ← s.withDefault 4 "ssl_enabled" Setting.truth? false
  let authority ← s.optional 5 "ssl_ca_location" Setting.text?
  let username ← s.optional 6 "sasl_username" Setting.text?
  let password ← s.optional 7 "sasl_password" Setting.text?
  let offsetReset ← s.withDefault 8 "auto_offset_reset" Setting.text? "earliest"
  let sessionTimeout ← s.withDefault 9 "session_timeout_ms" nat32? 30000
  let pollInterval ← s.withDefault 10 "max_poll_interval_ms" nat32? 300000
  some { servers, group, segmentTopic, vehicleTopic, secure, authority, username, password,
         offsetReset, sessionTimeout, pollInterval }

/-- Where rows are kept. -/
structure Database where
  url : String
  maxConnections : Nat
  minConnections : Nat
  connectTimeout : Nat
  idleTimeout : Nat
  runMigrations : Bool
  deriving DecidableEq, Repr

/-- Reads where rows are kept. -/
def Database.ofSection? (s : Section) : Option Database := do
  let url ← s.required 0 "url" Setting.text?
  let maxConnections ← s.withDefault 1 "max_connections" nat32? 10
  let minConnections ← s.withDefault 2 "min_connections" nat32? 2
  let connectTimeout ← s.withDefault 3 "connect_timeout_secs" nat64? 30
  let idleTimeout ← s.withDefault 4 "idle_timeout_secs" nat64? 600
  let runMigrations ← s.withDefault 5 "run_migrations" Setting.truth? true
  some { url, maxConnections, minConnections, connectTimeout, idleTimeout, runMigrations }

/-- The format of timestamps that a setting names: by a word in any case, or as the only name in a
table. -/
def timestampFormat? (setting : Setting) : Option Telemetry.TimestampFormat := do
  let word ← match setting with
    | .text word => some word
    | .table [(name, _)] => some name
    | _ => none
  if Setting.lower word = "rfc3339" then some .rfc3339
  else if Setting.lower word = "epoch_millis" then some .epochMillis
  else none

/-- Where telemetry is read. -/
structure Search where
  url : String
  username : Option String
  password : Option String
  index : String
  pageSize : Nat
  timestampFormat : Telemetry.TimestampFormat
  requestTimeout : Nat
  deriving DecidableEq, Repr

/-- Reads where telemetry is read. -/
def Search.ofSection? (s : Section) : Option Search := do
  let url ← s.required 0 "url" Setting.text?
  let username ← s.optional 1 "username" Setting.text?
  let password ← s.optional 2 "password" Setting.text?
  let index ← s.required 3 "index" Setting.text?
  let pageSize ← s.withDefault 4 "page_size" nat64? 10000
  let timestampFormat ← s.withDefault 5 "timestamp_format" timestampFormat? .rfc3339
  let requestTimeout ← s.withDefault 6 "request_timeout_secs" nat64? 30
  some { url, username, password, index, pageSize, timestampFormat, requestTimeout }

/-- Where items are archived, and who signs them. -/
structure ArchiveNode where
  url : String
  currency : String
  signerKey : String
  requestTimeout : Nat
  deriving DecidableEq, Repr

/-- Reads where items are archived. -/
def ArchiveNode.ofSection? (s : Section) : Option ArchiveNode := do
  let url ← s.required 0 "url" Setting.text?
  let currency ← s.withDefault 1 "currency" Setting.text? "arweave"
  let signerKey ← s.required 2 "signer_private_key" Setting.text?
  let requestTimeout ← s.withDefault 3 "request_timeout_secs" nat64? 30
  some { url, currency, signerKey, requestTimeout }

/-- How tasks are worked on. -/
structure Workers where
  count : Nat
  queueCapacity : Nat
  fetch : Bool
  upload : Bool
  drainTimeout : Nat
  deriving DecidableEq, Repr

/-- Reads how tasks are worked on. -/
def Workers.ofSection? (s : Section) : Option Workers := do
  let count ← s.withDefault 0 "worker_count" nat64? 4
  let queueCapacity ← s.withDefault 1 "queue_capacity" nat64? 64
  let fetch ← s.withDefault 2 "data_fetch_enabled" Setting.truth? true
  let upload ← s.withDefault 3 "upload_enabled" Setting.truth? true
  let drainTimeout ← s.withDefault 4 "drain_timeout_secs" nat64? 30
  some { count, queueCapacity, fetch, upload, drainTimeout }

end Config

/-- The configuration of the service. -/
structure Config where
  service : Config.Service
  bus : Config.Bus
  database : Config.Database
  search : Config.Search
  archive : Config.ArchiveNode
  workers : Config.Workers
  deriving DecidableEq, Repr

namespace Config

/-- A setting that has to be positive. -/
inductive Requirement
  | workerCount
  | queueCapacity
  | pageSize
  deriving DecidableEq, Repr

/-- The name of a setting that has to be positive. -/
def Requirement.setting : Requirement → String
  | workerCount => "consumer.worker_count"
  | queueCapacity => "consumer.queue_capacity"
  | pageSize => "elasticsearch.page_size"

/-- Why there is no configuration. -/
inductive Error
  /-- A source cannot be read, or a field is missing or of another kind. -/
  | unreadable
  /-- A setting is zero under which no work could be done. -/
  | zero (requirement : Requirement)
  deriving DecidableEq, Repr

/-- The words for a setting that is zero. -/
def Requirement.message (requirement : Requirement) : String :=
  s!"{requirement.setting} must be at least 1"

/-- The settings that have to be positive, in the order in which they are looked at. -/
def positives (config : Config) : List (Requirement × Nat) :=
  [(.workerCount, config.workers.count), (.queueCapacity, config.workers.queueCapacity),
    (.pageSize, config.search.pageSize)]

/-- Refuses a configuration under which no work could be done. -/
def validate (config : Config) : Except Error Unit :=
  match config.positives.find? fun (_, n) => n = 0 with
  | some (requirement, _) => .error (.zero requirement)
  | none => .ok ()

/-- Reads a configuration; the sections of the service and its workers may be missing. -/
def ofSettings? (settings : Setting) : Option Config := do
  let read {α : Type} (of? : Section → Option α) (setting : Setting) : Option α :=
    (Section.ofSetting? setting).bind of?
  let root ← Section.ofSetting? settings
  let service ← root.withDefault 0 "service" (read Service.ofSection?)
    ⟨"trips-service", "info", 9090⟩
  let bus ← root.required 1 "kafka" (read Bus.ofSection?)
  let database ← root.required 2 "database" (read Database.ofSection?)
  let search ← root.required 3 "elasticsearch" (read Search.ofSection?)
  let archive ← root.required 4 "archive" (read ArchiveNode.ofSection?)
  let workers ← root.withDefault 5 "consumer" (read Workers.ofSection?) ⟨4, 64, true, true, 30⟩
  some { service, bus, database, search, archive, workers }

/-- Reads and validates a configuration. -/
def ofSettings (settings : Setting) : Except Error Config :=
  match ofSettings? settings with
  | none => .error .unreadable
  | some config => config.validate.map fun _ => config

/-- Which steps of archiving are switched on. -/
def options (config : Config) : Options := ⟨config.workers.fetch, config.workers.upload⟩

/-- The archive node that items are sent to. -/
def gateway (config : Config) : Archive.Gateway := ⟨config.archive.url, config.archive.currency⟩

end Config

end TripArchive
