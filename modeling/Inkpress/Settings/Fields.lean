import Inkpress.Settings.Basic
import Inkpress.Settings.Value

namespace Inkpress.Settings

inductive Fault
  | noFile (name : String)
  | unreadable (name : String)
  | wrongKind (key : String)
  | missing (field : String)
  | noSection
  deriving Repr, DecidableEq

inductive Fields
  | named (sectionName : String) (entries : List (String × Value))
  | placed (sectionName : String) (items : List Value)

namespace Fields

def ofValue (sectionName : String) : Value → Except Fault Fields
  | .sect entries => .ok (named sectionName entries)
  | .list items => .ok (placed sectionName items)
  | _ => .error .noSection

def find? (f : Fields) (name : String) (place : Nat) : Option (Value × String) :=
  match f with
  | named s entries =>
    (entries.find? (·.1 = name)).map fun e => (e.2, if s = "" then name else s ++ "." ++ name)
  | placed s items => items[place]?.map fun v => (v, s ++ "[" ++ toString place ++ "]")

def read? {α : Type} (f : Fields) (name : String) (place : Nat) (conv : Value → Option α) :
    Except Fault (Option α) :=
  match f.find? name place with
  | none => .ok none
  | some (v, key) =>
    match conv v with
    | some a => .ok (some a)
    | none => .error (.wrongKind key)

def lack (f : Fields) (name : String) : Fault :=
  match f with
  | named _ _ => .missing name
  | placed _ _ => .noSection

def need {α : Type} (f : Fields) (name : String) (a : Option α) : Except Fault α :=
  match a with
  | some a => .ok a
  | none => .error (f.lack name)

def optional {α : Type} (f : Fields) (a : Option (Option α)) : Except Fault (Option α) :=
  match f, a with
  | _, some a => .ok a
  | named _ _, none => .ok none
  | placed _ _, none => .error .noSection

end Fields

def orNull {α : Type} (conv : Value → Option α) : Value → Option (Option α)
  | .null => some none
  | v => (conv v).map some

def Server.ofValue (v : Value) : Except Fault Server := do
  let f ← Fields.ofValue "server" v
  let host ← f.read? "host" 0 Value.text?
  let port ← f.read? "port" 1 (Value.word? 16)
  let timeout ← f.read? "request_timeout_secs" 2 (Value.word? 64)
  let origin ← f.read? "cors_allowed_origin" 3 Value.text?
  let d : Server := {}
  return ⟨host.getD d.host, port.getD d.port, timeout.getD d.requestTimeout,
    origin.getD d.allowedOrigin⟩

def Database.ofValue (v : Value) : Except Fault Database := do
  let f ← Fields.ofValue "database" v
  let url ← f.read? "url" 0 Value.text?
  let readUrl ← f.read? "read_url" 1 (orNull Value.text?)
  let most ← f.read? "max_connections" 2 (Value.word? 32)
  let least ← f.read? "min_connections" 3 (Value.word? 32)
  let connect ← f.read? "connect_timeout_secs" 4 (Value.word? 64)
  let idle ← f.read? "idle_timeout_secs" 5 (Value.word? 64)
  let logs ← f.read? "sqlx_logging" 6 Value.bool?
  let url ← f.need "url" url
  let readUrl ← f.optional readUrl
  let d : Database := { url }
  return ⟨url, readUrl, most.getD d.maxConnections, least.getD d.minConnections,
    connect.getD d.connectTimeout, idle.getD d.idleTimeout, logs.getD d.logsStatements⟩

def Ingestion.ofValue (v : Value) : Except Fault Ingestion := do
  let f ← Fields.ofValue "ingestion" v
  let dir ← f.read? "images_dir" 0 (orNull Value.text?)
  let author ← f.read? "default_author" 1 Value.text?
  let dir ← f.optional dir
  let d : Ingestion := {}
  return ⟨dir, author.getD d.defaultAuthor⟩

def Observability.ofValue (v : Value) : Except Fault Observability := do
  let f ← Fields.ofValue "observability" v
  let level ← f.read? "log_level" 0 Value.text?
  let json ← f.read? "json_logging" 1 Value.bool?
  let port ← f.read? "metrics_port" 2 (Value.word? 16)
  let name ← f.read? "service_name" 3 Value.text?
  let d : Observability := {}
  return ⟨level.getD d.logLevel, json.getD d.logsJson, port.getD d.metricsPort,
    name.getD d.serviceName⟩

def section? {α : Type} (entries : List (String × Value)) (name : String)
    (read : Value → Except Fault α) : Except Fault (Option α) :=
  match entries.find? (·.1 = name) with
  | some e => (read e.2).map some
  | none => .ok none

/-- All settings from the entries of the outermost section. -/
def ofEntries (entries : List (String × Value)) : Except Fault Settings := do
  let server ← section? entries "server" Server.ofValue
  let database ← section? entries "database" Database.ofValue
  let ingestion ← section? entries "ingestion" Ingestion.ofValue
  let observability ← section? entries "observability" Observability.ofValue
  match database with
  | none => .error (.missing "database")
  | some database =>
    return ⟨server.getD {}, database, ingestion.getD {}, observability.getD {}⟩

end Inkpress.Settings
