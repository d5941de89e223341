import Inkpress.Table
import Inkpress.Text.Basic
import Inkpress.Xml.Entity
import Inkpress.Xml.Scan

namespace Inkpress.Package

inductive Fault
  | notArchive
  | unopened (part : String)
  | unread (part : String)
  | markup
  | badAttribute
  | badAttributeValue
  | missingMain (part : String)
  deriving Repr, DecidableEq

namespace Fault

def message : Fault → String
  | notArchive => "not a zip package"
  | unopened part => s!"failed to open {part}"
  | unread part => s!"failed to read {part}"
  | markup => "XML error"
  | badAttribute => "malformed attribute"
  | badAttributeValue => "malformed attribute value"
  | missingMain part => s!"main document part {part} is missing"

end Fault

end Inkpress.Package

namespace Inkpress.Package

open Xml (Tag Event)

def addAttribute (t : Table String) : Option Xml.Attribute → Except Fault (Table String)
  | none => .error .badAttribute
  | some a =>
    match Xml.unescape a.value with
    | none => .error .badAttributeValue
    | some value => .ok (t.insert (String.ofList a.localKey) (String.ofList value))

def attributes (tag : Tag) : Except Fault (Table String) :=
  tag.attributes.foldlM addAttribute .empty

def element? : Event → Option Tag
  | .start tag | .empty tag => some tag
  | .text _ | .stop | .fault => none

def foldElements {β : Type} (visit : β → Tag → Except Fault β) (start : β) (xml : String) :
    Except Fault β :=
  (Xml.events xml.toList).foldlM (fun acc e =>
    match e with
    | .fault => .error .markup
    | e => match element? e with
      | some tag => visit acc tag
      | none => .ok acc) start

end Inkpress.Package

namespace Inkpress.Package

/-- The content types a package declares: by extension, and for single parts. -/
structure ContentTypes where
  defaults : Table String
  overrides : Table String
  deriving Repr

namespace ContentTypes

def empty : ContentTypes := ⟨.empty, .empty⟩

def visit (types : ContentTypes) (tag : Xml.Tag) : Except Fault ContentTypes :=
  if tag.localName = "Default".toList then
    (attributes tag).map fun attrs =>
      match attrs.find? "Extension", attrs.find? "ContentType" with
      | some ext, some ct =>
        { types with defaults := types.defaults.insert (Text.lowerAscii ext) ct }
      | _, _ => types
  else if tag.localName = "Override".toList then
    (attributes tag).map fun attrs =>
      match attrs.find? "PartName", attrs.find? "ContentType" with
      | some part, some ct =>
        { types with overrides := types.overrides.insert (Text.lowerAscii part) ct }
      | _, _ => types
  else .ok types

end ContentTypes

/-- The content types declared in a document text; later declarations win. -/
def readContentTypes (xml : String) : Except Fault ContentTypes :=
  foldElements ContentTypes.visit .empty xml

end Inkpress.Package

namespace Inkpress.Package

/-- What one part of a package says about another. -/
structure Relationship where
  kind : String
  target : String
  external : Bool
  deriving Repr, DecidableEq

namespace Relationship

def officeDocument : String :=
  "http://schemas.openxmlformats.org/officeDocument/2006/relationships/officeDocument"

def ofAttributes? (attrs : Table String) : Option (String × Relationship) := do
  let id ← attrs.find? "Id"
  let target ← attrs.find? "Target"
  some (id, {
    kind := (attrs.find? "Type").getD ""
    target
    external := (attrs.find? "TargetMode").any (fun m => Text.lowerAscii m = "external") })

def visit (rels : Table Relationship) (tag : Xml.Tag) : Except Fault (Table Relationship) :=
  if tag.localName = "Relationship".toList then
    (attributes tag).map fun attrs =>
      match ofAttributes? attrs with
      | some (id, rel) => rels.insert id rel
      | none => rels
  else .ok rels

end Relationship

/-- The relationships of a part by id; of several with one id the last counts. -/
def readRelationships (xml : String) : Except Fault (Table Relationship) :=
  foldElements Relationship.visit .empty xml

end Inkpress.Package
