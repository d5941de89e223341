import Inkpress.Text.Basic
import Inkpress.Xml.Entity
import Inkpress.Xml.Scan

namespace Inkpress.Body

structure Paragraph where
  text : String
  /-- One entry per drawing, in the order of their opening tags: the id its picture is embedded
  by. -/
  drawings : List (Option String)
  deriving Repr, DecidableEq

namespace Paragraph

def empty : Paragraph := ⟨"", []⟩

def isBlank (p : Paragraph) : Bool :=
  Text.isBlank p.text

end Paragraph

end Inkpress.Body

namespace Inkpress.Body

open Xml (Tag Event)

inductive Fault
  | markup
  | badText
  | unclosed (name : String)
  deriving Repr, DecidableEq

namespace Fault

def message : Fault → String
  | markup => "XML error"
  | badText => "bad text content"
  | unclosed name => s!"unexpected end of document inside <{name}>"

end Fault

def isRunPath (path : List (List Char)) : Bool :=
  path = ["r".toList] || path = ["hyperlink".toList, "r".toList]

def isTextPath (path : List (List Char)) : Bool :=
  path = ["r".toList, "t".toList] || path = ["hyperlink".toList, "r".toList, "t".toList]

def embedId? (tag : Tag) : Option String := do
  let a ← tag.attribute? "embed".toList
  let id ← Xml.unescape a.value
  if id.isEmpty then none else some (String.ofList id)

/-- Page and column breaks carry no text; only a break that wraps the line does. -/
def isLineBreak (tag : Tag) : Bool :=
  (tag.attribute? "type".toList).all (·.value = "textWrapping".toList)

/-- The paragraph being read. Depths count the elements open above an element. -/
structure OpenParagraph where
  depth : Nat
  drawing : Option Nat
  read : Paragraph

/-- Gives the last of some drawings an embedded picture, unless it has one. -/
def fillLast (embed : Option String) : List (Option String) → List (Option String)
  | [] => []
  | d :: ds => if ds.isEmpty then [d.or embed] else d :: fillLast embed ds

namespace OpenParagraph

def path (p : OpenParagraph) (opened : List (List Char)) : List (List Char) :=
  opened.drop (p.depth + 1)

def append (p : OpenParagraph) (s : String) : OpenParagraph :=
  { p with read.text := p.read.text ++ s }

def element (p : OpenParagraph) (opened : List (List Char)) (tag : Tag) (opens : Bool) :
    OpenParagraph :=
  let name := tag.localName
  let inRun := isRunPath (p.path opened)
  if name = "drawing".toList then
    { p with
      read.drawings := p.read.drawings ++ [none]
      drawing := if opens then some opened.length else p.drawing }
  else if name = "blip".toList ∧ p.drawing.isSome then
    { p with read.drawings := fillLast (embedId? tag) p.read.drawings }
  else if name = "tab".toList ∧ inRun then p.append "\t"
  else if name = "br".toList ∧ inRun ∧ isLineBreak tag then p.append "\n"
  else if name = "cr".toList ∧ inRun then p.append "\n"
  else p

def close (p : OpenParagraph) (depth : Nat) : OpenParagraph :=
  if p.drawing = some depth then { p with drawing := none } else p

end OpenParagraph

structure Walk where
  opened : List (List Char)
  current : Option OpenParagraph
  collected : List Paragraph

namespace Walk

def start : Walk := ⟨[], none, []⟩

def atBody (w : Walk) : Bool :=
  w.opened.getLast? = some "body".toList

def beginsParagraph (w : Walk) (tag : Tag) : Bool :=
  tag.localName = "p".toList && w.atBody

def step (w : Walk) : Event → Except Fault Walk
  | .start tag =>
    let current := match w.current with
      | some p => some (p.element w.opened tag true)
      | none =>
        if w.beginsParagraph tag then some ⟨w.opened.length, none, .empty⟩ else none
    .ok { w with current, opened := w.opened ++ [tag.localName] }
  | .empty tag =>
    match w.current with
    | some p => .ok { w with current := some (p.element w.opened tag false) }
    | none =>
      .ok (if w.beginsParagraph tag then { w with collected := .empty :: w.collected } else w)
  | .text raw =>
    match w.current with
    | some p =>
      if isTextPath (p.path w.opened) then
        match Xml.unescape raw with
        | some cs => .ok { w with current := some (p.append (String.ofList cs)) }
        | none => .error .badText
      else .ok w
    | none => .ok w
  | .stop =>
    let opened := w.opened.dropLast
    let depth := opened.length
    match w.current with
    | some p =>
      let p := p.close depth
      if p.depth = depth then
        .ok ⟨opened, none, p.read :: w.collected⟩
      else .ok { w with opened, current := some p }
    | none => .ok { w with opened }
  | .fault => .error .markup

def run (w : Walk) (es : List Event) : Except Fault Walk :=
  es.foldlM step w

/-- The paragraphs in document order, once every element is closed. -/
def finish (w : Walk) : Except Fault (List Paragraph) :=
  match w.opened.getLast? with
  | some name => .error (.unclosed (String.ofList name))
  | none => .ok w.collected.reverse

end Walk

def paragraphsOfEvents (es : List Event) : Except Fault (List Paragraph) :=
  Walk.start.run es >>= Walk.finish

end Inkpress.Body

namespace Inkpress.Body

def paragraphs (xml : String) : Except Fault (List Paragraph) :=
  paragraphsOfEvents (Xml.events xml.toList)

end Inkpress.Body
