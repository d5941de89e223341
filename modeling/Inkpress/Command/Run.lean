import Inkpress.Command.Arguments
import Inkpress.Image.Header
import Inkpress.Startup

namespace Inkpress.Command

/-- How a program ends: with 0 when all is well, 1 on a failure, and 2 when it was called wrongly.
-/
structure Outcome where
  code : Nat
  output : String
  failure : Option Failure

namespace Outcome

def done (output : String) : Outcome := ⟨0, output, none⟩

def failed (f : Failure) : Outcome := ⟨1, "", some f⟩

def refused : Outcome := ⟨2, "", none⟩

end Outcome

structure World where
  workspace : Workspace
  environment : Settings.Environment
  now : Moment
  draws : Document.Draws

def staging (w : Workspace) : Option String → Document.Staging
  | none => .absent "pictures"
  | some dir =>
    match w.reachable? dir with
    | none => .blocked
    | some p =>
      if w.isDirectoryAt p then .present ⟨dir, w.filesIn p, fun _ => true⟩ else .absent dir

def keep (w : Workspace) (dir : Option String) (s : Document.Staging) : Workspace :=
  match dir with
  | none => w
  | some dir =>
    match w.reachable? dir with
    | some p =>
      if s.isPresent then
        s.files.foldl (fun w f => w.put (p ++ [f.1]) f.2) (w.makeDirectory p)
      else w
    | none => w

def source (w : Workspace) (path : String) : Document.Source :=
  match w.file? path with
  | some content => .file (Zip.Archive.ofBytes? content)
  | none => .missing

/-- Whether a command would write to a database. Tables that are as they should be are left alone.
-/
def writes (d : Store.Database) : Command → Bool
  | ingest _ _ _ _ => true
  | remove _ => true
  | initDb => d.tables.isNone
  | dropDb => d.tables.isSome

def ingestText (s : Store.Stored) : String :=
  "Stored post " ++ toString s.post ++ " (" ++ toString s.blocks ++ " blocks, " ++
    toString s.images ++ " images, " ++ toString s.degraded ++ " without payload)\n"

structure Done where
  result : Except Failure String
  pool : Store.Pool
  workspace : Workspace
  draws : Document.Draws

def perform [Image.Library] (s : Settings) (world : World) (pool : Store.Pool) (c : Command) : Done :=
  let w := world.workspace
  let done {α : Type} (shown : α → String) (r : Except Error α × Store.Pool) : Done :=
    ⟨(r.1.map shown).mapError .store, r.2, w, world.draws⟩
  match c with
  | ingest path title author imagesDir =>
    let dir := imagesDir.or s.ingestion.imagesDir
    let request : Blog.Request :=
      ⟨path, source w path, title, some (author.getD s.ingestion.defaultAuthor)⟩
    let i := (Blog.mk pool .empty).ingest request world.now (staging w dir) world.draws
    ⟨(i.result.map ingestText).mapError (.ingest path), i.blog.pool, keep w dir i.staging, i.draws⟩
  | remove title =>
    done (fun found => (if found then "Removed '" else "No post titled '") ++ title ++ "'\n")
      (pool.deletePost title)
  | initDb => done (fun _ => "Blog tables ready\n") (pool.write (·.createAll))
  | dropDb => done (fun _ => "Blog tables dropped\n") (pool.write (·.dropAll))

def denied (c : Command) : Failure :=
  let e : Error := .database "attempt to write a readonly database"
  match c with
  | ingest path _ _ _ => .ingest path (.store e)
  | _ => .store e

def execute [Image.Library] (s : Settings) (world : World) (c : Command) : Outcome × World :=
  match Startup.connect world.workspace s.database with
  | (.error f, w) => (.failed f, { world with workspace := w })
  | (.ok connected, w) =>
    let world := { world with workspace := w }
    let primary := connected.primary
    if primary.readOnly && c.writes primary.database then (.failed c.denied, world)
    else
      let d := perform s world connected.pool c
      let w := Startup.save d.workspace primary d.pool.primary
      let world := { world with workspace := w, draws := d.draws }
      match d.result with
      | .ok output => (.done output, world)
      | .error f => (.failed f, world)

def run [Image.Library] (world : World) (args : List String) : Outcome × World :=
  let e := Startup.environment world.workspace world.environment
  match read (e.find? "BLOGFORGE_CONFIG") args with
  | .explain text => (.done text, world)
  | .refuse => (.refused, world)
  | .invoke i =>
    match Startup.settings world.workspace e i.config with
    | .error f => (.failed f, world)
    | .ok s => execute s world i.command

end Inkpress.Command
