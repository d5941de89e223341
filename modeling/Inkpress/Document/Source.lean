import Inkpress.Document.Extraction
import Inkpress.Text.Basic
import Inkpress.Text.Split

namespace Inkpress.Document

/-- The title of a document that is given none: its file name without the extension. -/
def defaultTitle (path : String) : String :=
  match Text.Path.stem? path.toList with
  | some stem => if Text.isBlank (String.ofList stem) then "Untitled" else String.ofList stem
  | none => "Untitled"

end Inkpress.Document

namespace Inkpress.Document

inductive Source
  | missing
  | file (archive : Option Zip.Archive)

inductive Staging
  | present (folder : Folder)
  | absent (path : String)
  | blocked

namespace Staging

def create? : Staging → Option Folder
  | present f => some f
  | absent path => some (.new path)
  | blocked => none

def files : Staging → List (String × ByteArray)
  | present f => f.files
  | absent _ => []
  | blocked => []

def isPresent : Staging → Bool
  | present _ => true
  | absent _ => false
  | blocked => false

end Staging

inductive FileFault
  | notFound (path : String)
  | noDirectory
  | unreadable (path : String) (fault : Fault)
  | unfinished
  deriving Repr, DecidableEq

def FileFault.message : FileFault → String
  | notFound path => "File not found: " ++ path
  | noDirectory => "IO error"
  | unreadable path fault => "Document parse error for " ++ path ++ ": " ++ fault.message
  | unfinished => "Extraction task failed"

/-- Extracts the document at a path. The directory is made once the file is known to be there,
before it is known to be sound. -/
def extractFile [Image.Library] (path : String) (source : Source) (staging : Staging) (draws : Draws) :
    Except FileFault Progress × Staging :=
  match source with
  | .missing => (.error (.notFound path), staging)
  | .file archive =>
    match staging.create? with
    | none => (.error .noDirectory, staging)
    | some folder =>
      match extract archive folder draws with
      | .ok s => (.ok s, .present s.folder)
      | .fault fault => (.error (.unreadable path fault), .present folder)
      | .exhausted => (.error .unfinished, .present folder)

end Inkpress.Document
