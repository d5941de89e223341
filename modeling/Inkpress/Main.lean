import Inkpress.Command.Run
import Std.Time.DateTime.Timestamp

namespace Inkpress.Command

def variableNames : List String :=
  ["APP_ENV", "BLOGFORGE_CONFIG"] ++ Settings.fieldNames.flatMap fun (sectionName, fields) =>
    fields.map (Settings.variableFor sectionName)

def settingsPaths (e : Settings.Environment) (config : Option String) : List String :=
  match config with
  | some path => Settings.candidates path
  | none => (Settings.layerNames e).flatMap Settings.candidates

def databasePath? (url : String) : Option String :=
  match Store.Location.ofUrl? url with
  | some (.file path _ _) => some path
  | _ => none

def filePaths (s : Settings) (c : Command) : List String :=
  let databases := [some s.database.url, s.database.readUrl].filterMap fun url =>
    url >>= databasePath?
  match c with
  | ingest path _ _ _ => path :: databases
  | _ => databases

def directoryPaths (s : Settings) (c : Command) : List String :=
  let databases := (filePaths s c).map Store.Location.directoryOf
  match c with
  | ingest _ _ _ dir => (dir.or s.ingestion.imagesDir).toList ++ databases
  | _ => databases

end Inkpress.Command

namespace Inkpress.Shell

def environment : IO Settings.Environment := do
  let found ← Command.variableNames.mapM fun name => do
    return (← IO.getEnv name).map fun value => (name, value)
  return found.filterMap id

def content? (path : String) : IO (Option ByteArray) := do
  try return some (← IO.FS.readBinFile path)
  catch _ => return none

def isDirectory (path : String) : IO Bool := do
  ((← IO.currentDir) / path).isDir

def placeOf (w : Workspace) (path : String) : Place :=
  (Workspace.names path).foldl (fun p s => if s = ".." then p.dropLast else p ++ [s]) (w.start path)

def look (w : Workspace) (files directories : List String) : IO Workspace := do
  let mut w := w
  for path in directories do
    if ← isDirectory path then w := w.makeDirectory (placeOf w path)
  for path in files do
    match ← content? path with
    | some c => w := w.put (placeOf w path) c
    | none => pure ()
  return w

def pathOf (p : Place) : String :=
  String.join (p.map fun s => "/" ++ s)

def write (before after : Workspace) : IO Unit := do
  for (p, c) in after.files do
    if (before.fileAt? p).map (·.data) ≠ some c.data then
      IO.FS.createDirAll (pathOf p.dropLast)
      IO.FS.writeBinFile (pathOf p) c

def draws : IO Document.Draws := do
  let bytes ← IO.getRandomBytes 4096
  return (List.range 1024).map fun n => ((Bytes.little? bytes (4 * n) 4).getD 0).toUInt32

def now : IO Moment := do
  return .ofUnixTime (← Std.Time.Timestamp.now).toSecondsSinceUnixEpoch.val

/-- The files that a command line makes a run look at. -/
def survey (e : Settings.Environment) (args : List String) : IO Workspace := do
  let here := Workspace.names (← IO.currentDir).toString
  let w ← look ⟨here, [], []⟩ [".env"] []
  let e := Startup.environment w e
  match Command.read (e.find? "BLOGFORGE_CONFIG") args with
  | .explain _ => return w
  | .refuse => return w
  | .invoke i =>
    let w ← look w (Command.settingsPaths e i.config) []
    match Startup.settings w e i.config with
    | .error _ => return w
    | .ok s => look w (Command.filePaths s i.command) (Command.directoryPaths s i.command)

def report (o : Command.Outcome) : IO Unit := do
  IO.print o.output
  match o.failure with
  | none => if o.code ≠ 0 then IO.eprintln "error: unexpected or missing argument"
  | some f =>
    IO.eprintln ("Error: " ++ f.message)
    match f.cause? with
    | some cause => IO.eprintln ("\nCaused by:\n    " ++ cause)
    | none => pure ()

def run (args : List String) : IO UInt32 := do
  let e ← environment
  let before ← survey e args
  let (o, world) := Command.run ⟨before, e, ← now, ← draws⟩ args
  write before world.workspace
  report o
  return o.code.toUInt32

end Inkpress.Shell

def main (args : List String) : IO UInt32 :=
  Inkpress.Shell.run args
