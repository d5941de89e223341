import Inkpress.Image.Basic
import Inkpress.Package.Tables
import Inkpress.Text.Split
import Inkpress.Zip.Archive

namespace Inkpress.Package.PartName

open Text (split join splitLast?)

def directory (name : List Char) : List Char :=
  match splitLast? '/' name with
  | some (dir, _) => dir
  | none => []

def relationshipsOf (name : List Char) : List Char :=
  match splitLast? '/' name with
  | some (dir, file) => dir ++ "/_rels/".toList ++ file ++ ".rels".toList
  | none => "_rels/".toList ++ name ++ ".rels".toList

/-- One segment of a target: an empty one and `.` stay here, `..` goes up but never above the
root. -/
def descend (path : List (List Char)) (segment : List Char) : List (List Char) :=
  if segment = [] ∨ segment = ['.'] then path
  else if segment = ['.', '.'] then path.dropLast
  else path ++ [segment]

def origin (base target : List Char) : List (List Char) :=
  if target.head? = some '/' then []
  else (split '/' base).filter (· ≠ [])

/-- The part that a target names from a base directory. -/
def resolve (base target : List Char) : List Char :=
  join '/' ((split '/' target).foldl descend (origin base target))

def extension (name : List Char) : List Char :=
  match splitLast? '.' name with
  | some (_, ext) => ext
  | none => []

end Inkpress.Package.PartName

namespace Inkpress

structure Package where
  archive : Zip.Archive
  mainPart : String
  relationships : Table Package.Relationship
  types : Package.ContentTypes

namespace Package

def defaultMainPart : String := "word/document.xml"

def typesPart : String := "[Content_Types].xml"

def fallbackType : String := "application/octet-stream"

def textPart? (a : Zip.Archive) (part : String) : Except Fault (Option String) :=
  match a.find? part with
  | none => .ok none
  | some .unopened => .error (.unopened part)
  | some .unread => .error (.unread part)
  | some (.bytes data) =>
    match Text.Utf8.decode? data with
    | some s => .ok (some s)
    | none => .error (.unread part)

/-- The main document that the package's own relationships lead to: the first internal one of the
right kind. -/
def mainPartOf (rels : List Relationship) : String :=
  match rels.find? (fun r => r.kind = Relationship.officeDocument && !r.external) with
  | some r => String.ofList (PartName.resolve [] r.target.toList)
  | none => defaultMainPart

/-- Reads a table from a part; a part that is missing holds the empty table. -/
def tableOf {α : Type} (a : Zip.Archive) (part : String) (empty : α)
    (read : String → Except Fault α) : Except Fault α := do
  match ← textPart? a part with
  | some xml => read xml
  | none => .ok empty

/-- The main document that an archive says it has, the package's own relationships gone through in some
order. -/
def selectMain (order : Table Relationship → List Relationship) (a : Zip.Archive) :
    Except Fault String := do
  let own ← tableOf a "_rels/.rels" .empty readRelationships
  .ok (mainPartOf (order own))

def ofMain (a : Zip.Archive) (mainPart : String) : Except Fault Package := do
  let relsPart := String.ofList (PartName.relationshipsOf mainPart.toList)
  let rels ← tableOf a relsPart .empty readRelationships
  let types ← tableOf a typesPart .empty readContentTypes
  .ok ⟨a, mainPart, rels, types⟩

def ofArchiveIn (order : Table Relationship → List Relationship) (a : Zip.Archive) :
    Except Fault Package :=
  selectMain order a >>= ofMain a

def ofArchive (a : Zip.Archive) : Except Fault Package :=
  ofArchiveIn Table.values a

def ofFile (a : Option Zip.Archive) : Except Fault Package :=
  match a with
  | some a => ofArchive a
  | none => .error .notArchive

def mainDocument (p : Package) : Except Fault String := do
  match ← textPart? p.archive p.mainPart with
  | some xml => .ok xml
  | none => .error (.missingMain p.mainPart)

/-- The declaration for the part wins over that for its extension, and that over a guess. -/
def contentTypeOf [Image.Library] (p : Package) (part : String) : String :=
  let own := p.types.overrides.find? (Text.lowerAscii ("/" ++ part))
  let byExtension :=
    p.types.defaults.find? (Text.lowerAscii (String.ofList (PartName.extension part.toList)))
  ((own.or byExtension).or (Image.Library.kindOf? part)).getD fallbackType

structure Picture where
  contentType : String
  data : ByteArray

inductive PictureFault
  | unknownRelationship (id : String)
  | externalTarget (id : String)
  | missingPart (part : String)
  | unopened
  | unread
  deriving Repr, DecidableEq

def PictureFault.message : PictureFault → String
  | unknownRelationship id => s!"relationship {id} not found"
  | externalTarget id => s!"relationship {id} points outside the package"
  | missingPart part => s!"package part {part} is missing"
  | unopened => "zip error"
  | unread => "IO error"

def partOf (p : Package) (r : Relationship) : String :=
  String.ofList (PartName.resolve (PartName.directory p.mainPart.toList) r.target.toList)

def picture [Image.Library] (p : Package) (id : String) : Except PictureFault Picture :=
  match p.relationships.find? id with
  | none => .error (.unknownRelationship id)
  | some r =>
    if r.external then .error (.externalTarget id)
    else
      match p.archive.find? (p.partOf r) with
      | none => .error (.missingPart (p.partOf r))
      | some .unopened => .error .unopened
      | some .unread => .error .unread
      | some (.bytes data) => .ok ⟨p.contentTypeOf (p.partOf r), data⟩

end Package

end Inkpress
