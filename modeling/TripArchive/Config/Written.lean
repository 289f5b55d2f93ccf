import TripArchive.Config.Source

/-!
# Configurations as settings

The JSON text of a configuration file states a configuration by its fields. This is the file that
states all of them.
-/

namespace TripArchive.Config

/-- What a configuration calls a format of timestamps. -/
def formatName : Telemetry.TimestampFormat → String
  | .rfc3339 => "rfc3339"
  | .epochMillis => "epoch_millis"

/-- How the service presents itself, as a section. -/
def Service.toJson (service : Service) : Json :=
  .object [("name", .string service.name), ("log_level", .string service.logLevel),
    ("metrics_port", .ofInt service.metricsPort)]

/-- Where events come from, as a section. -/
def Bus.toJson (bus : Bus) : Json :=
  .object [("bootstrap_servers", .string bus.servers), ("consumer_group", .string bus.group),
    ("segment_topic", .string bus.segmentTopic), ("vehicle_topic", .string bus.vehicleTopic),
    ("ssl_enabled", .bool bus.secure), ("ssl_ca_location", .ofOption .string bus.authority),
    ("sasl_username", .ofOption .string bus.username),
    ("sasl_password", .ofOption .string bus.password),
    ("auto_offset_reset", .string bus.offsetReset),
    ("session_timeout_ms", .ofInt bus.sessionTimeout),
    ("max_poll_interval_ms", .ofInt bus.pollInterval)]

/-- Where rows are kept, as a section. -/
def Database.toJson (database : Database) : Json :=
  .object [("url", .string database.url), ("max_connections", .ofInt database.maxConnections),
    ("min_connections", .ofInt database.minConnections),
    ("connect_timeout_secs", .ofInt database.connectTimeout),
    ("idle_timeout_secs", .ofInt database.idleTimeout),
    ("run_migrations", .bool database.runMigrations)]

/-- Where telemetry is read, as a section. -/
def Search.toJson (search : Search) : Json :=
  .object [("url", .string search.url), ("username", .ofOption .string search.username),
    ("password", .ofOption .string search.password), ("index", .string search.index),
    ("page_size", .ofInt search.pageSize),
    ("timestamp_format", .string (formatName search.timestampFormat)),
    ("request_timeout_secs", .ofInt search.requestTimeout)]

/-- Where items are archived, as a section. -/
def ArchiveNode.toJson (archive : ArchiveNode) : Json :=
  .object [("url", .string archive.url), ("currency", .string archive.currency),
    ("signer_private_key", .string archive.signerKey),
    ("request_timeout_secs", .ofInt archive.requestTimeout)]

/-- How tasks are worked on, as a section. -/
def Workers.toJson (workers : Workers) : Json :=
  .object [("worker_count", .ofInt workers.count), ("queue_capacity", .ofInt workers.queueCapacity),
    ("data_fetch_enabled", .bool workers.fetch), ("upload_enabled", .bool workers.upload),
    ("drain_timeout_secs", .ofInt workers.drainTimeout)]

/-- The sections of a configuration. -/
def sections (config : Config) : List (String × Json) :=
  [("service", config.service.toJson), ("kafka", config.bus.toJson),
    ("database", config.database.toJson), ("elasticsearch", config.search.toJson),
    ("archive", config.archive.toJson), ("consumer", config.workers.toJson)]

/-- The file that states a configuration. -/
def toFile (config : Config) : File := .json (Json.object config.sections).text

/-- The variable of the environment that overrides a field of a section. -/
def variableName (part field : String) : String :=
  s!"TRIPS__{part.map Char.toUpper}__{field.map Char.toUpper}"

/-- The variables that override the fields of a configuration. -/
def variableNames (config : Config) : List String :=
  config.sections.flatMap fun (name, fields) =>
    match fields with
    | .object fields => fields.map fun (field, _) => variableName name field
    | _ => []

/-- A configuration in which everything that has to be said is empty. -/
def blank : Config where
  service := ⟨"trips-service", "info", 9090⟩
  bus := {
    servers := "", group := "trips-api"
    segmentTopic := "topic.device.segments", vehicleTopic := "topic.event"
    secure := false, authority := none, username := none, password := none
    offsetReset := "earliest", sessionTimeout := 30000, pollInterval := 300000 }
  database := ⟨"", 10, 2, 30, 600, true⟩
  search := ⟨"", none, none, "", 10000, .rfc3339, 30⟩
  archive := ⟨"", "arweave", "", 30⟩
  workers := ⟨4, 64, true, true, 30⟩

end TripArchive.Config
