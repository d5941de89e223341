import Inkpress.Json.Reader
import Inkpress.Settings.Fields
import Inkpress.Settings.KeyPath
import Inkpress.Text.Split
import Inkpress.Text.Utf8

namespace Inkpress.Settings

abbrev Layer := List (String × Value)

def writeLayer (base : Value) (layer : Layer) : Value :=
  layer.foldl (fun v e => e.2.write (KeyPath.ofName e.1) v) base

/-- The entries that layers leave, each over those before it. -/
def combine (layers : List Layer) : Layer :=
  match layers.foldl writeLayer .empty with
  | .sect entries => entries
  | _ => []

abbrev Files := String → Option ByteArray

/-- The formats of files that are read: only TOML and JSON, so that files in other formats are not found. -/
inductive Format
  | toml
  | json
  deriving Repr, DecidableEq

namespace Format

def ofExtension? (ext : String) : Option Format :=
  if ext = "toml" then some toml
  else if ext = "json" then some json
  else none

def read? (f : Format) (content : ByteArray) : Option Layer :=
  let text := Text.Utf8.decodeLossy (Text.Utf8.dropMark content)
  match f with
  | toml => (Toml.read? text).map Value.ofTomlEntries
  | json =>
    match Json.read? text >>= Value.ofJson? with
    | some (.sect entries) => some entries
    | _ => none

end Format

/-- The file that a name leads to: one of that name with a known extension, or else, if there is no
file of that name, one with an extension added. -/
def locate (files : Files) (name : String) : Option (Format × ByteArray) :=
  match files name with
  | some content => do
    let ext ← Text.Path.extension? name.toList
    let f ← Format.ofExtension? (String.ofList ext)
    some (f, content)
  | none => do
    let stem := String.ofList (← Text.Path.named? name.toList)
    let extended (ext : String) (f : Format) :=
      (files (stem ++ ext)).map fun content => (f, content)
    (extended ".toml" .toml).or (extended ".json" .json)

def candidates (name : String) : List String :=
  name :: match Text.Path.named? name.toList with
    | some stem => [String.ofList stem ++ ".toml", String.ofList stem ++ ".json"]
    | none => []

def ofFile (files : Files) (name : String) : Except Fault Layer :=
  match locate files name with
  | none => .error (.noFile name)
  | some (f, content) =>
    match f.read? content with
    | some layer => .ok layer
    | none => .error (.unreadable name)

def ofFileIfAny (files : Files) (name : String) : Except Fault Layer :=
  match ofFile files name with
  | .error (.noFile _) => .ok []
  | r => r

abbrev Environment := List (String × String)

def Environment.find? (e : Environment) (name : String) : Option String :=
  (List.find? (fun v => v.1 = name) e).map (·.2)

def pointed : List Char → List Char
  | '_' :: '_' :: cs => '.' :: pointed cs
  | c :: cs => c :: pointed cs
  | [] => []

def keyOfVariable? (name : String) : Option String :=
  (Text.after? "app__".toList (Text.lowerAscii name).toList).map fun rest =>
    String.ofList (pointed rest)

def variableFor (sectionName field : String) : String :=
  ("app__" ++ sectionName ++ "__" ++ field).toUpper

def ofEnvironment (e : Environment) : Layer :=
  e.filterMap fun v => (keyOfVariable? v.1).map fun key => (key, Value.ofVariable v.2)

def base : Layer :=
  let d : Server := {}
  [("server.host", .text d.host), ("server.port", .integer d.port)]

/-- The names under which the files of the `config` directory go, the later ones over the earlier.
-/
def layerNames (e : Environment) : List String :=
  ["config/default", "config/" ++ (e.find? "APP_ENV").getD "development", "config/local"]

def load (files : Files) (e : Environment) : Except Fault Settings := do
  let layers ← (layerNames e).mapM (ofFileIfAny files)
  ofEntries (combine (base :: layers ++ [ofEnvironment e]))

def loadFile (files : Files) (e : Environment) (name : String) : Except Fault Settings := do
  let layer ← ofFile files name
  ofEntries (combine [layer, ofEnvironment e])

end Inkpress.Settings
