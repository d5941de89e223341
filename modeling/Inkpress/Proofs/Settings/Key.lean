import Inkpress.Settings.Layers
import Mathlib.Data.List.Nodup

namespace Inkpress

namespace Settings

inductive Key
  | host | port | requestTimeout | allowedOrigin
  | url | readUrl | maxConnections | minConnections | connectTimeout | idleTimeout | logsStatements
  | imagesDir | defaultAuthor
  | logLevel | logsJson | metricsPort | serviceName
  deriving Repr, DecidableEq

inductive Kind
  | text
  | word (bits : Nat)
  | switch
  deriving Repr, DecidableEq

/-- What a setting can be. -/
inductive Scalar
  | text (s : String)
  | number (n : Nat)
  | switch (b : Bool)
  deriving Repr, DecidableEq

def Kind.read? : Kind → Value → Option Scalar
  | text, v => v.text?.map .text
  | word bits, v => (v.word? bits).map .number
  | switch, v => v.bool?.map .switch

def Scalar.toValue : Scalar → Value
  | text s => .text s
  | number n => .integer n
  | switch b => .bool b

def Kind.Admits : Kind → Scalar → Prop
  | text, .text _ => True
  | word bits, .number n => n < Nat.pow 2 bits
  | switch, .switch _ => True
  | _, _ => False

theorem Kind.read?_toValue {kind : Kind} {x : Scalar} (h : kind.Admits x) :
    kind.read? x.toValue = some x := by
  cases kind with
  | text =>
      cases x with
      | text s => rfl
      | number n | switch b => cases h
  | word bits =>
      cases x with
      | number n =>
          have hn : n < 2 ^ bits := h
          simp [read?, Scalar.toValue, Value.word?, Value.natural?, hn]
      | text s | switch b => cases h
  | switch =>
      cases x with
      | switch b => rfl
      | text s | number n => cases h

theorem Kind.read?_sect (kind : Kind) (entries : List (String × Value)) :
    kind.read? (.sect entries) = none := by
  cases kind <;> rfl

namespace Key

def sectionName : Key → String
  | host | port | requestTimeout | allowedOrigin => "server"
  | url | readUrl | maxConnections | minConnections | connectTimeout | idleTimeout
  | logsStatements => "database"
  | imagesDir | defaultAuthor => "ingestion"
  | logLevel | logsJson | metricsPort | serviceName => "observability"

def field : Key → String
  | host => "host"
  | port => "port"
  | requestTimeout => "request_timeout_secs"
  | allowedOrigin => "cors_allowed_origin"
  | url => "url"
  | readUrl => "read_url"
  | maxConnections => "max_connections"
  | minConnections => "min_connections"
  | connectTimeout => "connect_timeout_secs"
  | idleTimeout => "idle_timeout_secs"
  | logsStatements => "sqlx_logging"
  | imagesDir => "images_dir"
  | defaultAuthor => "default_author"
  | logLevel => "log_level"
  | logsJson => "json_logging"
  | metricsPort => "metrics_port"
  | serviceName => "service_name"

def name (k : Key) : String :=
  k.sectionName ++ "." ++ k.field

def kind : Key → Kind
  | host | allowedOrigin | url | readUrl | imagesDir | defaultAuthor | logLevel | serviceName => .text
  | port | metricsPort => .word 16
  | maxConnections | minConnections => .word 32
  | requestTimeout | connectTimeout | idleTimeout => .word 64
  | logsStatements | logsJson => .switch

def all : List Key :=
  [host, port, requestTimeout, allowedOrigin, url, readUrl, maxConnections, minConnections,
    connectTimeout, idleTimeout, logsStatements, imagesDir, defaultAuthor, logLevel, logsJson,
    metricsPort, serviceName]

theorem mem_all (k : Key) : k ∈ all := by
  cases k <;> decide

theorem name_injective {j k : Key} (h : j.name = k.name) : j = k := by
  have hnodup : (all.map name).Nodup := by decide +kernel
  exact List.inj_on_of_nodup_map hnodup j.mem_all k.mem_all h

theorem ofName_name (k : Key) : KeyPath.ofName k.name = [.key k.sectionName, .key k.field] := by
  cases k <;> decide +kernel

theorem sectionName_cases (k : Key) :
    k.sectionName = "server" ∨ k.sectionName = "database" ∨ k.sectionName = "ingestion" ∨
      k.sectionName = "observability" := by
  cases k <;> decide

theorem lowerAscii_sectionName (k : Key) : Text.lowerAscii k.sectionName = k.sectionName := by
  cases k <;> decide +kernel

theorem lowerAscii_field (k : Key) : Text.lowerAscii k.field = k.field := by
  cases k <;> decide +kernel

theorem ofName_sectionName (k : Key) : KeyPath.ofName k.sectionName = [.key k.sectionName] := by
  cases k <;> decide +kernel

theorem fieldNames_eq :
    all.map (fun k => (k.sectionName, k.field)) =
      fieldNames.flatMap fun s => s.2.map fun field => (s.1, field) := by
  decide +kernel

end Key

def get? (s : Settings) : Key → Option Scalar
  | .host => some (.text s.server.host)
  | .port => some (.number s.server.port)
  | .requestTimeout => some (.number s.server.requestTimeout)
  | .allowedOrigin => some (.text s.server.allowedOrigin)
  | .url => some (.text s.database.url)
  | .readUrl => s.database.readUrl.map .text
  | .maxConnections => some (.number s.database.maxConnections)
  | .minConnections => some (.number s.database.minConnections)
  | .connectTimeout => some (.number s.database.connectTimeout)
  | .idleTimeout => some (.number s.database.idleTimeout)
  | .logsStatements => some (.switch s.database.logsStatements)
  | .imagesDir => s.ingestion.imagesDir.map .text
  | .defaultAuthor => some (.text s.ingestion.defaultAuthor)
  | .logLevel => some (.text s.observability.logLevel)
  | .logsJson => some (.switch s.observability.logsJson)
  | .metricsPort => some (.number s.observability.metricsPort)
  | .serviceName => some (.text s.observability.serviceName)

end Settings

end Inkpress
