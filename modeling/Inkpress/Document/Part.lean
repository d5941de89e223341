import Inkpress.Json.Basic
import Inkpress.Table

namespace Inkpress.Document

/-- One unit of a document: a paragraph's text, or the place of a picture. -/
inductive Part
  | paragraph (text : String)
  | image (id : String)
  deriving Repr, DecidableEq

namespace Part

def imageId? : Part → Option String
  | paragraph _ => none
  | image id => some id

def ofTag? (tag text : String) : Option Part :=
  if tag = "paragraph" then some (.paragraph text)
  else if tag = "image" then some (.image text)
  else none

def textMember (tag : String) : String :=
  if tag = "image" then "id" else "text"

/-- Reads a part: an object with a tag, whose other members do not matter, or a pair of tag and
text. -/
def ofJson? : Json → Option Part
  | .array [.text tag, .text s] => ofTag? tag s
  | j => do
    let tag ← j.member? "type" >>= Json.text?
    let s ← j.member? (textMember tag) >>= Json.text?
    ofTag? tag s

def toJson : Part → Json
  | paragraph text => .object [("type", .text "paragraph"), ("text", .text text)]
  | image id => .object [("type", .text "image"), ("id", .text id)]

theorem ofJson?_toJson (p : Part) : ofJson? p.toJson = some p := by
  cases p <;> simp [toJson, ofJson?, Json.member?, Json.text?, textMember, ofTag?]

end Part

end Inkpress.Document

namespace Inkpress.Document

structure StagedImage where
  path : String
  fileName : String
  contentType : String
  width : Nat
  height : Nat
  deriving Repr, DecidableEq

/-- What is known of a drawing: its number in the document, from 1, and its picture, if it has
one. -/
structure ImageEntry where
  sourceIndex : Nat
  staged : Option StagedImage
  deriving Repr, DecidableEq

abbrev ImageMap := Table ImageEntry

namespace ImageMap

def staged? (m : ImageMap) (id : String) : Option StagedImage :=
  m.find? id >>= ImageEntry.staged

def stagedCount (m : ImageMap) : Nat :=
  m.values.countP (·.staged.isSome)

end ImageMap

end Inkpress.Document
