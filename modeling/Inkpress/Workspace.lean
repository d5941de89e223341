import Inkpress.Table
import Inkpress.Text.Split

namespace Inkpress

abbrev Place := List String

structure Workspace where
  here : Place
  files : List (Place × ByteArray)
  directories : List Place

namespace Workspace

def names (path : String) : List String :=
  ((Text.split '/' path.toList).map String.ofList).filter fun s => s ≠ "" && s ≠ "."

def start (w : Workspace) (path : String) : Place :=
  if path.toList.head? = some '/' then [] else w.here

def asksDirectory (path : String) : Bool :=
  match (Text.split '/' path.toList).getLast? with
  | some last => last = [] || last = ['.'] || last = ['.', '.']
  | none => true

def isDirectoryAt (w : Workspace) (p : Place) : Bool :=
  p.isPrefixOf w.here || w.directories.any (p.isPrefixOf ·)
    || w.files.any fun f => p.isPrefixOf f.1 && p.length < f.1.length

def fileAt? (w : Workspace) (p : Place) : Option ByteArray :=
  (w.files.find? (·.1 = p)).map (·.2)

/-- Follows names from a place. What is gone through has to be a directory; nothing lies above the
root. -/
def follow? (w : Workspace) : Place → List String → Option Place
  | p, [] => some p
  | p, s :: rest =>
    if !w.isDirectoryAt p then none
    else if s = ".." then w.follow? p.dropLast rest
    else w.follow? (p ++ [s]) rest

def locate? (w : Workspace) (path : String) : Option Place :=
  if path = "" then none else w.follow? (w.start path) (names path)

def file? (w : Workspace) (path : String) : Option ByteArray := do
  let p ← w.locate? path
  if asksDirectory path then none else w.fileAt? p

def isFile (w : Workspace) (path : String) : Bool :=
  (w.file? path).isSome

def isDirectory (w : Workspace) (path : String) : Bool :=
  path = "" || (w.locate? path).any w.isDirectoryAt

def reach? (w : Workspace) : Place → List String → Option Place
  | p, [] => if (w.fileAt? p).isSome then none else some p
  | p, s :: rest =>
    if (w.fileAt? p).isSome then none
    else if s = ".." then w.reach? p.dropLast rest
    else w.reach? (p ++ [s]) rest

/-- Where a directory is or is to be made, if no file stands in the way. -/
def reachable? (w : Workspace) (path : String) : Option Place :=
  w.reach? (w.start path) (names path)

def put (w : Workspace) (p : Place) (content : ByteArray) : Workspace :=
  { w with files := Assoc.put p content w.files }

def makeDirectory (w : Workspace) (p : Place) : Workspace :=
  if w.isDirectoryAt p then w else { w with directories := w.directories ++ [p] }

def filesIn (w : Workspace) (p : Place) : List (String × ByteArray) :=
  w.files.filterMap fun f =>
    match f.1.getLast? with
    | some name => if f.1.dropLast = p then some (name, f.2) else none
    | none => none

def ofFiles (here : Place) (files : List (String × ByteArray)) : Workspace :=
  files.foldl (fun w f => w.put (w.start f.1 ++ names f.1) f.2) ⟨here, [], []⟩

end Workspace

end Inkpress
