import Inkpress.Calendar

namespace Inkpress.Store

structure Post where
  id : Int
  title : String
  author : Option String
  published : Moment
  modified : Moment
  deriving Repr, DecidableEq

/-- What a block is, as far as it matters to readers. -/
inductive BlockKind
  | paragraph | image | heading
  deriving Repr, DecidableEq

namespace BlockKind

def name : BlockKind → String
  | paragraph => "paragraph"
  | image => "image"
  | heading => "heading"

/-- The kind that a stored name means; names that mean nothing else are paragraphs. -/
def ofName (s : String) : BlockKind :=
  if s = "image" then image else if s = "heading" then heading else paragraph

theorem ofName_name (k : BlockKind) : ofName k.name = k := by
  cases k <;> decide

end BlockKind

structure Block where
  id : Int
  post : Int
  kindName : String
  content : Option String
  sequence : Int
  deriving Repr, DecidableEq

def Block.kind (b : Block) : BlockKind :=
  .ofName b.kindName

structure Image where
  id : Int
  post : Int
  block : Option Int
  name : String
  data : ByteArray
  contentType : Option String
  width : Option Int
  height : Option Int

def fallbackContentType : String := "application/octet-stream"

def Image.shownContentType (i : Image) : String :=
  i.contentType.getD fallbackContentType

end Inkpress.Store
