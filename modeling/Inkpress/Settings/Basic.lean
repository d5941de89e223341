import Inkpress.Json.Basic

namespace Inkpress

namespace Settings

structure Server where
  host : String := "0.0.0.0"
  port : Nat := 5000
  requestTimeout : Nat := 30
  allowedOrigin : String := "http://localhost:3000"
  deriving Repr, DecidableEq

structure Database where
  url : String
  readUrl : Option String := none
  maxConnections : Nat := 10
  minConnections : Nat := 1
  connectTimeout : Nat := 10
  idleTimeout : Nat := 300
  logsStatements : Bool := false
  deriving Repr, DecidableEq

structure Ingestion where
  imagesDir : Option String := none
  defaultAuthor : String := "Anonymous"
  deriving Repr, DecidableEq

structure Observability where
  logLevel : String := "info"
  logsJson : Bool := true
  /-- Zero turns the metrics off. -/
  metricsPort : Nat := 9090
  serviceName : String := "blogforge"
  deriving Repr, DecidableEq

end Settings

structure Settings where
  server : Settings.Server := {}
  database : Settings.Database
  ingestion : Settings.Ingestion := {}
  observability : Settings.Observability := {}
  deriving Repr, DecidableEq

namespace Settings

def fieldNames : List (String × List String) :=
  [("server", ["host", "port", "request_timeout_secs", "cors_allowed_origin"]),
    ("database", ["url", "read_url", "max_connections", "min_connections", "connect_timeout_secs",
      "idle_timeout_secs", "sqlx_logging"]),
    ("ingestion", ["images_dir", "default_author"]),
    ("observability", ["log_level", "json_logging", "metrics_port", "service_name"])]

def default : Settings :=
  { database := { url := "postgres://localhost/personal_website" } }

def Server.toJson (s : Server) : Json :=
  .object [("host", .text s.host), ("port", .nat s.port),
    ("request_timeout_secs", .nat s.requestTimeout), ("cors_allowed_origin", .text s.allowedOrigin)]

def Database.toJson (d : Database) : Json :=
  .object [("url", .text d.url), ("read_url", .ofText? d.readUrl),
    ("max_connections", .nat d.maxConnections), ("min_connections", .nat d.minConnections),
    ("connect_timeout_secs", .nat d.connectTimeout), ("idle_timeout_secs", .nat d.idleTimeout),
    ("sqlx_logging", .bool d.logsStatements)]

def Ingestion.toJson (i : Ingestion) : Json :=
  .object [("images_dir", .ofText? i.imagesDir), ("default_author", .text i.defaultAuthor)]

def Observability.toJson (o : Observability) : Json :=
  .object [("log_level", .text o.logLevel), ("json_logging", .bool o.logsJson),
    ("metrics_port", .nat o.metricsPort), ("service_name", .text o.serviceName)]

def toJson (s : Settings) : Json :=
  .object [("server", s.server.toJson), ("database", s.database.toJson),
    ("ingestion", s.ingestion.toJson), ("observability", s.observability.toJson)]

end Settings

end Inkpress
