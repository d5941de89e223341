import Inkpress.Store.Detail
import Inkpress.Store.NewPost

namespace Inkpress.Store

structure Database where
  tables : Option Tables
  closed : Bool

namespace Database

def fresh : Database := ⟨some .empty, false⟩

def bare : Database := ⟨none, false⟩

def reach (d : Database) : Except Error Tables :=
  if d.closed then .error (.database "connection is closed")
  else match d.tables with
    | none => .error (.database "no such table")
    | some t => .ok t

def read {α : Type} (d : Database) (f : Tables → α) : Except Error α :=
  d.reach.map f

/-- Runs a change of the tables; one that fails leaves the database as it was. -/
def change {α : Type} (d : Database) (f : Tables → Except Error (α × Tables)) :
    Except Error α × Database :=
  match d.reach with
  | .error e => (.error e, d)
  | .ok t =>
    match f t with
    | .error e => (.error e, d)
    | .ok (a, t) => (.ok a, { d with tables := some t })

def createAll (d : Database) : Except Error Unit × Database :=
  if d.closed then (.error (.database "connection is closed"), d)
  else (.ok (), { d with tables := some (d.tables.getD .empty) })

def dropAll (d : Database) : Except Error Unit × Database :=
  if d.closed then (.error (.database "connection is closed"), d)
  else (.ok (), { d with tables := none })

end Database

structure Pool where
  primary : Database
  replica : Option Database

namespace Pool

def reader (p : Pool) : Database :=
  p.replica.getD p.primary

def read {α : Type} (p : Pool) (f : Tables → α) : Except Error α :=
  p.reader.read f

def write {α : Type} (p : Pool) (f : Database → Except Error α × Database) :
    Except Error α × Pool :=
  let (r, d) := f p.primary
  (r, { p with primary := d })

def change {α : Type} (p : Pool) (f : Tables → Except Error (α × Tables)) :
    Except Error α × Pool :=
  p.write (·.change f)

def ping (p : Pool) : Except Error Unit :=
  if p.primary.closed then .error (.connection "Primary ping failed: connection is closed")
  else if p.replica.any (·.closed) then
    .error (.connection "Replica ping failed: connection is closed")
  else .ok ()

def list (p : Pool) : Except Error (List Summary) :=
  p.read Tables.summaries

def find (p : Pool) (id : Int) : Except Error (Option Post) :=
  p.read (·.post? id)

def findTitled (p : Pool) (title : String) : Except Error (Option Post) :=
  p.read (·.postTitled? title)

def postCount (p : Pool) : Except Error Nat :=
  p.read (·.posts.length)

def blocksOf (p : Pool) (post : Int) : Except Error (List Block) :=
  p.read (·.blocksOf post)

def imagesOf (p : Pool) (post : Int) : Except Error (List Image) :=
  p.read (·.imagesOf post)

def image (p : Pool) (id : Int) : Except Error Image := do
  match ← p.read (·.image? id) with
  | some i => .ok i
  | none => .error (.imageNotFound id)

/-- The detail of a post, from three reads one after the other. -/
def detail (p : Pool) (id : Int) : Except Error Detail := do
  match ← p.find id with
  | none => .error (.postNotFound id)
  | some post =>
    let blocks ← p.blocksOf id
    let images ← p.imagesOf id
    .ok (Tables.assemble post blocks images)

def deletePost (p : Pool) (title : String) : Except Error Bool × Pool :=
  p.change fun t => .ok (t.deletePost title)

def deleteBlock (p : Pool) (id : Int) : Except Error Bool × Pool :=
  p.change fun t => .ok (t.deleteBlock id)

def deleteImage (p : Pool) (id : Int) : Except Error Bool × Pool :=
  p.change fun t => .ok (t.deleteImage id)

def invalid (fields : List String) : Error :=
  .validation (String.intercalate ", " fields) fields

def store (p : Pool) (readFile : String → Option ByteArray) (now : Moment) (post : NewPost)
    (parts : List Document.Part) (images : Document.ImageMap) : Except Error Stored × Pool :=
  match post.invalidFields with
  | [] => p.change (storePost readFile now post parts images)
  | fields => (.error (invalid fields), p)

end Pool

end Inkpress.Store
