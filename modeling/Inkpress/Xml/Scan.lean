import Inkpress.Xml.Attribute

namespace Inkpress.Xml

structure Tag where
  name : List Char
  attributes : List (Option Attribute)
  deriving Repr, DecidableEq

namespace Tag

def localName (t : Tag) : List Char :=
  Xml.localName t.name

def attribute? (t : Tag) (key : List Char) : Option Attribute :=
  (t.attributes.filterMap id).find? (·.localKey = key)

def ofText (cs : List Char) : Tag where
  name := cs.takeWhile (fun c => !Text.isGap c)
  attributes := Attribute.ofText (cs.dropWhile (fun c => !Text.isGap c))

end Tag

inductive Event
  | start (tag : Tag)
  | empty (tag : Tag)
  /-- Character data as written, never the empty text. -/
  | text (raw : List Char)
  | stop
  | fault
  deriving Repr, DecidableEq

end Inkpress.Xml

namespace Inkpress.Xml

/-- What the scanner is inside of. Unfinished pieces are kept reversed. -/
inductive Mode
  | text (read : List Char)
  | bracket
  /-- Inside a tag; brackets do not count between quotes. -/
  | tag (read : List Char) (quote : Option Char)
  | declaration (read : List Char)
  | comment (dashes : Nat)
  | cdata (brackets : Nat)
  | doctype (named : Bool) (depth : Nat)
  | instructionStart
  | instruction (mark : Bool)
  | failed

structure Scanner where
  mode : Mode
  opened : List (List Char)
  read : List Event

namespace Scanner

def start : Scanner := ⟨.text [], [], []⟩

def fail (s : Scanner) : Scanner :=
  { s with mode := .failed, read := .fault :: s.read }

def enter (s : Scanner) (m : Mode) : Scanner :=
  { s with mode := m }

def emit (s : Scanner) (e : Event) : Scanner :=
  { s with mode := .text [], read := e :: s.read }

def flush (s : Scanner) (read : List Char) : Scanner :=
  if read.isEmpty then s else { s with read := .text read.reverse :: s.read }

def closingName (reversed : List Char) : List Char :=
  if reversed.all Text.isGap then reversed.reverse
  else (reversed.dropWhile Text.isGap).reverse

def closeTag (s : Scanner) (reversed : List Char) : Scanner :=
  match reversed.reverse with
  | '/' :: _ =>
    match s.opened with
    | [] => s.fail
    | name :: rest =>
      if closingName reversed.dropLast = name then
        { s.emit .stop with opened := rest }
      else s.fail
  | content =>
    match reversed with
    | '/' :: before => s.emit (.empty (.ofText before.reverse))
    | _ =>
      let tag := Tag.ofText content
      { s.emit (.start tag) with opened := tag.name :: s.opened }

def declarationMode (cs : List Char) : Mode :=
  if cs = "--".toList then .comment 0
  else if cs = "[cdata[".toList then .cdata 0
  else if cs = "doctype".toList then .doctype false 0
  else if cs.isPrefixOf "--".toList ∨ cs.isPrefixOf "[cdata[".toList
      ∨ cs.isPrefixOf "doctype".toList then .declaration cs.reverse
  else .failed

def step (s : Scanner) (c : Char) : Scanner :=
  match s.mode with
  | .text read => if c = '<' then (s.flush read).enter .bracket else s.enter (.text (c :: read))
  | .bracket =>
    if c = '!' then s.enter (.declaration [])
    else if c = '?' then s.enter .instructionStart
    else if c = '>' then s.closeTag []
    else if c = '"' ∨ c = '\'' then s.enter (.tag [c] (some c))
    else s.enter (.tag [c] none)
  | .tag read none =>
    if c = '>' then s.closeTag read
    else if c = '"' ∨ c = '\'' then s.enter (.tag (c :: read) (some c))
    else s.enter (.tag (c :: read) none)
  | .tag read (some q) => s.enter (.tag (c :: read) (if c = q then none else some q))
  | .declaration read =>
    match declarationMode ((c.toLower :: read).reverse) with
    | .failed => s.fail
    | m => s.enter m
  | .comment n =>
    if c = '>' ∧ n = 2 then s.enter (.text [])
    else s.enter (.comment (if c = '-' then min 2 (n + 1) else 0))
  | .cdata n =>
    if c = '>' ∧ n = 2 then s.enter (.text [])
    else s.enter (.cdata (if c = ']' then min 2 (n + 1) else 0))
  | .doctype named depth =>
    if c = '>' then
      match depth with
      | 0 => if named then s.enter (.text []) else s.fail
      | d + 1 => s.enter (.doctype true d)
    else s.enter (.doctype (named || !Text.isGap c) (if c = '<' then depth + 1 else depth))
  | .instructionStart =>
    if c = '>' then s.fail else s.enter (.instruction (c = '?'))
  | .instruction mark =>
    if c = '>' ∧ mark then s.enter (.text []) else s.enter (.instruction (c = '?'))
  | .failed => s

def run (s : Scanner) (cs : List Char) : Scanner :=
  cs.foldl step s

theorem run_append (s : Scanner) (cs ds : List Char) : s.run (cs ++ ds) = (s.run cs).run ds :=
  List.foldl_append

def finish (s : Scanner) : List Event :=
  match s.mode with
  | .text read => (s.flush read).read.reverse
  | .failed => s.read.reverse
  | .bracket | .tag _ _ | .declaration _ | .comment _ | .cdata _ | .doctype _ _
  | .instructionStart | .instruction _ => s.fail.read.reverse

end Scanner

/-- The events of a document text; a byte order mark in front of it does not count. -/
def events (cs : List Char) : List Event :=
  let body := match cs with
    | '\uFEFF' :: rest => rest
    | cs => cs
  (Scanner.start.run body).finish

end Inkpress.Xml
