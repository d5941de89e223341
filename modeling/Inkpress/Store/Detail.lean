import Inkpress.Json.Basic
import Inkpress.Store.Tables
import Inkpress.Text.Base64

namespace Inkpress.Store

structure Summary where
  id : Int
  title : String
  author : Option String
  published : String
  modified : String
  deriving Repr, DecidableEq

namespace Summary

def ofPost (p : Post) : Summary :=
  ⟨p.id, p.title, p.author, p.published.text, p.modified.text⟩

def members (s : Summary) : List (String × Json) :=
  [("id", .int s.id), ("title", .text s.title), ("author", .ofText? s.author),
    ("pub_date", .text s.published), ("last_modified", .text s.modified)]

def toJson (s : Summary) : Json :=
  .object s.members

end Summary

structure Payload where
  name : String
  contentType : Option String
  width : Option Int
  height : Option Int
  dataUri : String
  deriving Repr, DecidableEq

def inlineData (contentType : String) (data : ByteArray) : String :=
  "data:" ++ contentType ++ ";base64," ++ Text.Base64.encode data

def intOrNull : Option Int → Json
  | some n => .int n
  | none => .null

namespace Payload

def ofImage (i : Image) : Payload :=
  ⟨i.name, i.contentType, i.width, i.height, inlineData i.shownContentType i.data⟩

def members (p : Payload) : List (String × Json) :=
  [("image_name", .text p.name), ("content_type", .ofText? p.contentType),
    ("width", intOrNull p.width), ("height", intOrNull p.height), ("image_data", .text p.dataUri)]

end Payload

structure BlockView where
  kindName : String
  content : Option String
  sequence : Int
  payload : Option Payload
  deriving Repr, DecidableEq

namespace BlockView

def of (b : Block) (i : Option Image) : BlockView :=
  ⟨b.kindName, b.content, b.sequence, i.map Payload.ofImage⟩

def toJson (v : BlockView) : Json :=
  .object ([("type", .text v.kindName), ("content", .ofText? v.content),
    ("sequence", .int v.sequence)] ++ (v.payload.map Payload.members).getD [])

end BlockView

structure Detail where
  post : Summary
  blocks : List BlockView
  deriving Repr, DecidableEq

namespace Detail

def toJson (d : Detail) : Json :=
  .object (d.post.members ++ [("content_blocks", .array (d.blocks.map BlockView.toJson))])

end Detail

namespace Tables

def summaries (t : Tables) : List Summary :=
  t.posts.map Summary.ofPost

def blocksOf (t : Tables) (post : Int) : List Block :=
  (t.blocks.filter (·.post = post)).mergeSort (fun a b => a.sequence ≤ b.sequence)

def imagesOf (t : Tables) (post : Int) : List Image :=
  t.images.filter (·.post = post)

/-- The image that a block shows: the first of some that is linked to it, if it is an image block.
-/
def shown? (images : List Image) (b : Block) : Option Image :=
  if b.kind = .image then images.find? (·.block = some b.id) else none

/-- A post's detail from the three reads it takes. -/
def assemble (p : Post) (blocks : List Block) (images : List Image) : Detail :=
  ⟨Summary.ofPost p, blocks.map fun b => .of b (shown? images b)⟩

def detail? (t : Tables) (id : Int) : Option Detail :=
  (t.post? id).map fun p => assemble p (t.blocksOf id) (t.imagesOf id)

end Tables

end Inkpress.Store
