import Inkpress.Store.Row

namespace Inkpress.Store

inductive Violation
  | titleTaken
  | sequenceTaken
  | noSuchPost
  | noSuchBlock
  | noSuchRow
  deriving Repr, DecidableEq

def Violation.message : Violation → String
  | titleTaken => "unique constraint on post titles"
  | sequenceTaken => "unique constraint on the places of a post's blocks"
  | noSuchPost => "foreign key to a post"
  | noSuchBlock => "foreign key to a block"
  | noSuchRow => "no row was updated"

structure Tables where
  posts : List Post
  blocks : List Block
  images : List Image
  lastPost : Int
  lastBlock : Int
  lastImage : Int

namespace Tables

def empty : Tables := ⟨[], [], [], 0, 0, 0⟩

def post? (t : Tables) (id : Int) : Option Post :=
  t.posts.find? (·.id = id)

def postTitled? (t : Tables) (title : String) : Option Post :=
  t.posts.find? (·.title = title)

def image? (t : Tables) (id : Int) : Option Image :=
  t.images.find? (·.id = id)

def hasBlock (t : Tables) (id : Int) : Bool :=
  t.blocks.any (·.id = id)

def insertPost (t : Tables) (title : String) (author : Option String)
    (published modified : Moment) : Except Violation (Post × Tables) :=
  if (t.postTitled? title).isSome then .error .titleTaken
  else
    let p : Post := ⟨t.lastPost + 1, title, author, published, modified⟩
    .ok (p, { t with posts := t.posts ++ [p], lastPost := p.id })

def updatePost (t : Tables) (id : Int) (title : Option String) (author : Option (Option String))
    (modified : Moment) : Except Violation (Post × Tables) :=
  match t.post? id with
  | none => .error .noSuchRow
  | some p =>
    let q := { p with title := title.getD p.title, author := author.getD p.author, modified }
    if t.posts.any (fun r => r.id ≠ id && r.title = q.title) then .error .titleTaken
    else .ok (q, { t with posts := t.posts.map fun r => if r.id = id then q else r })

def insertBlock (t : Tables) (post : Int) (kindName : String) (content : Option String)
    (sequence : Int) : Except Violation (Block × Tables) :=
  if (t.post? post).isNone then .error .noSuchPost
  else if t.blocks.any (fun b => b.post = post && b.sequence = sequence) then
    .error .sequenceTaken
  else
    let b : Block := ⟨t.lastBlock + 1, post, kindName, content, sequence⟩
    .ok (b, { t with blocks := t.blocks ++ [b], lastBlock := b.id })

structure NewImage where
  post : Int
  block : Option Int
  name : String
  data : ByteArray
  contentType : Option String
  width : Option Int
  height : Option Int

def insertImage (t : Tables) (i : NewImage) : Except Violation (Image × Tables) :=
  if (t.post? i.post).isNone then .error .noSuchPost
  else if i.block.any (fun b => !t.hasBlock b) then .error .noSuchBlock
  else
    let row : Image :=
      ⟨t.lastImage + 1, i.post, i.block, i.name, i.data, i.contentType, i.width, i.height⟩
    .ok (row, { t with images := t.images ++ [row], lastImage := row.id })

def unlinkImages (blocks : List Block) (images : List Image) : List Image :=
  images.map fun i =>
    if i.block.any (fun b => blocks.all (·.id ≠ b)) then { i with block := none } else i

/-- Deletes the post of a title, with its blocks and images; images of other posts that were linked
to one of the blocks stay without a block. -/
def deletePost (t : Tables) (title : String) : Bool × Tables :=
  match t.postTitled? title with
  | none => (false, t)
  | some p =>
    let blocks := t.blocks.filter (·.post ≠ p.id)
    (true, { t with
      posts := t.posts.filter (·.id ≠ p.id)
      blocks
      images := unlinkImages blocks (t.images.filter (·.post ≠ p.id)) })

/-- Deletes a block; an image that was linked to it stays without a block. -/
def deleteBlock (t : Tables) (id : Int) : Bool × Tables :=
  if t.hasBlock id then
    let blocks := t.blocks.filter (·.id ≠ id)
    (true, { t with blocks, images := unlinkImages blocks t.images })
  else (false, t)

def deleteImage (t : Tables) (id : Int) : Bool × Tables :=
  if (t.image? id).isSome then (true, { t with images := t.images.filter (·.id ≠ id) })
  else (false, t)

end Tables

end Inkpress.Store
