import Inkpress.Blog
import Inkpress.Settings.VariableFile
import Inkpress.Store.Location
import Inkpress.Store.Snapshot
import Inkpress.Workspace

namespace Inkpress

inductive Failure
  | settings (fault : Settings.Fault)
  | connection (error : Error)
  | address (text : String)
  | ingest (path : String) (fault : IngestFault)
  | store (error : Error)
  deriving Repr, DecidableEq

def Failure.message : Failure → String
  | settings _ => "Failed to load configuration"
  | connection _ => "Failed to connect to database"
  | address text => "Invalid listen address " ++ text
  | ingest path _ => "Failed to ingest " ++ path
  | store error => error.message

def Failure.cause? : Failure → Option String
  | connection error => some error.message
  | ingest _ fault => some fault.message
  | settings _ => none
  | address _ => none
  | store _ => none

namespace Startup

def environment (w : Workspace) (e : Settings.Environment) : Settings.Environment :=
  match w.file? ".env" with
  | some content => Settings.VariableFile.add e content
  | none => e

def settings (w : Workspace) (e : Settings.Environment) (config : Option String) :
    Except Failure Settings :=
  (match config with
    | some path => Settings.loadFile w.file? e path
    | none => Settings.load w.file? e).mapError .settings

structure Opened where
  database : Store.Database
  place : Option Place
  readOnly : Bool

/-- Opens a database; a file that is missing is made if the address says so. -/
def openAt (w : Workspace) : Store.Location → Option (Opened × Workspace)
  | .memory => some (⟨.bare, none, false⟩, w)
  | .file path create readOnly =>
    if !(Store.Location.file path create readOnly).opens w.isFile w.isDirectory then none
    else
      match w.locate? path with
      | none => none
      | some p =>
        match w.fileAt? p with
        | some content => some (⟨.ofFile content, some p, readOnly⟩, w)
        | none => some (⟨.bare, some p, readOnly⟩, w.put p .empty)

def openUrl (w : Workspace) (url which : String) : Except Failure (Opened × Workspace) :=
  match Store.Location.ofUrl? url >>= openAt w with
  | some r => .ok r
  | none => .error (.connection (.connection ("Failed to connect to " ++ which ++ ": " ++ url)))

structure Connected where
  primary : Opened
  replica : Option Opened

def Connected.pool (c : Connected) : Store.Pool :=
  ⟨c.primary.database, c.replica.map (·.database)⟩

/-- Opens the database for writes and the one for reads, if there is one. Without room for a
connection or time to make one nothing opens. -/
def connect (w : Workspace) (d : Settings.Database) : Except Failure Connected × Workspace :=
  if d.maxConnections = 0 ∨ d.connectTimeout = 0 then
    (.error (.connection (.connection "Failed to connect to primary: no connection in time")), w)
  else
    match openUrl w d.url "primary" with
    | .error f => (.error f, w)
    | .ok (primary, w) =>
      match d.readUrl with
      | none => (.ok ⟨primary, none⟩, w)
      | some url =>
        match openUrl w url "replica" with
        | .error f => (.error f, w)
        | .ok (replica, w) => (.ok ⟨primary, some replica⟩, w)

def save (w : Workspace) (o : Opened) (d : Store.Database) : Workspace :=
  match o.place with
  | some p => if d.closed then w else w.put p d.toFile
  | none => w

end Startup

end Inkpress
