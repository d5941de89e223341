import Inkpress.Body.Walk
import Inkpress.Document.Part
import Inkpress.Json.Basic
import Inkpress.Package.Basic

namespace Inkpress.Document

/-- A directory that takes files: what it holds, and which names it lets be written. -/
structure Folder where
  path : String
  files : List (String × ByteArray)
  accepts : String → Bool

namespace Folder

def maxNameSize : Nat := 255

def new (path : String) : Folder := ⟨path, [], fun name => name.utf8ByteSize ≤ maxNameSize⟩

def pathOf (f : Folder) (name : String) : String :=
  f.path ++ "/" ++ name

def write? (f : Folder) (name : String) (data : ByteArray) : Option Folder :=
  if f.accepts name then some { f with files := Assoc.put name data f.files } else none

def read? (f : Folder) (name : String) : Option ByteArray :=
  (f.files.find? (·.1 = name)).map (·.2)

def readPath? (f : Folder) (path : String) : Option ByteArray :=
  (f.files.find? (fun e => f.pathOf e.1 = path)).map (·.2)

end Folder

end Inkpress.Document

namespace Inkpress.Document

/-- The numbers still to be drawn, in the order in which they will come. -/
abbrev Draws := List UInt32

namespace ImageId

def hexDigits : Nat → Nat → List Char
  | 0, _ => []
  | n + 1, x => hexDigits n (x / 16) ++ [Json.hexDigit (x % 16)]

def ofDraw (n : UInt32) : String :=
  String.ofList ("img_".toList ++ hexDigits 8 n.toNat)

/-- The first drawn id that is not taken, and the draws after it; nothing if all are. -/
def fresh? (taken : String → Bool) : Draws → Option (String × Draws)
  | [] => none
  | n :: draws =>
    if taken (ofDraw n) then fresh? taken draws else some (ofDraw n, draws)

theorem not_taken_of_fresh? {taken : String → Bool} {draws rest : Draws} {id : String}
    (h : fresh? taken draws = some (id, rest)) : taken id = false := by
  induction draws with
  | nil => simp [fresh?] at h
  | cons n draws ih =>
    simp only [fresh?] at h
    split at h
    · exact ih h
    · next hn =>
      obtain ⟨rfl, rfl⟩ := by simpa using h
      simpa using hn

end ImageId

end Inkpress.Document

namespace Inkpress.Document

inductive Fault
  | package (fault : Package.Fault)
  | body (fault : Body.Fault)
  deriving Repr, DecidableEq

def Fault.message : Fault → String
  | package fault => fault.message
  | body fault => fault.message

structure Extraction where
  parts : List Part
  images : ImageMap

def Extraction.empty : Extraction := ⟨[], .empty⟩

def isExtensionChar (c : Char) : Bool :=
  c.isAlphanum || c = '-' || c = '.'

/-- The file extension for a content type: its subtype without what a plus sign or a semicolon
begins, in small letters. -/
def fileExtension (contentType : String) : String :=
  let cs := contentType.toList
  let subtype := match Text.splitFirst? '/' cs with
    | some (_, sub) => sub
    | none => cs
  let piece := subtype.takeWhile fun c => !(c = '+' || c = ';')
  let ext := (Text.trim (String.ofList piece)).toList.filter isExtensionChar
  if ext.isEmpty then "bin" else Text.lowerAscii (String.ofList ext)

inductive ImageFault
  | missingEmbed
  | picture (fault : Package.PictureFault)
  | undecodable
  | unwritable
  deriving Repr, DecidableEq

/-- Finds the picture of a drawing, sizes it and writes it to the folder. -/
def stage [Image.Library] (p : Package) (embed : Option String) (id : String) (folder : Folder) :
    Except ImageFault (StagedImage × Folder) :=
  match embed with
  | none => .error .missingEmbed
  | some rel =>
    match p.picture rel with
    | .error fault => .error (.picture fault)
    | .ok picture =>
      match Image.Library.size? picture.data with
      | none => .error .undecodable
      | some size =>
        let name := id ++ "." ++ fileExtension picture.contentType
        match folder.write? name picture.data with
        | none => .error .unwritable
        | some folder =>
          .ok (⟨folder.pathOf name, name, picture.contentType, size.width, size.height⟩, folder)

structure Progress where
  done : Extraction
  drawings : Nat
  folder : Folder
  draws : Draws

namespace Progress

def start (folder : Folder) (draws : Draws) : Progress :=
  ⟨.empty, 0, folder, draws⟩

def drawing [Image.Library] (p : Package) (s : Progress) (embed : Option String) : Option Progress := do
  let number := s.drawings + 1
  let (id, draws) ← ImageId.fresh? (fun id => (s.done.images.find? id).isSome) s.draws
  let (entry, folder) : ImageEntry × Folder := match stage p embed id s.folder with
    | .ok (image, folder) => (⟨number, some image⟩, folder)
    | .error _ => (⟨number, none⟩, s.folder)
  some {
    done := ⟨s.done.parts ++ [.image id], s.done.images.insert id entry⟩
    drawings := number
    folder
    draws }

/-- One paragraph more: its text unless it is blank, then its drawings. -/
def paragraph [Image.Library] (p : Package) (s : Progress) (paragraph : Body.Paragraph) : Option Progress :=
  let s := if paragraph.isBlank then s
    else { s with done.parts := s.done.parts ++ [.paragraph paragraph.text] }
  paragraph.drawings.foldlM (drawing p) s

end Progress

/-- What becomes of an extraction: it may also run out of draws. -/
inductive Outcome (α : Type)
  | ok (value : α)
  | fault (fault : Fault)
  | exhausted

def paragraphsOf (p : Package) : Except Fault (List Body.Paragraph) := do
  let xml ← p.mainDocument.mapError Fault.package
  (Body.paragraphs xml).mapError Fault.body

def extract [Image.Library] (archive : Option Zip.Archive) (folder : Folder) (draws : Draws) : Outcome Progress :=
  match (Package.ofFile archive).mapError Fault.package with
  | .error fault => .fault fault
  | .ok p =>
    match paragraphsOf p with
    | .error fault => .fault fault
    | .ok paragraphs =>
      match paragraphs.foldlM (Progress.paragraph p) (.start folder draws) with
      | some s => .ok s
      | none => .exhausted

end Inkpress.Document
