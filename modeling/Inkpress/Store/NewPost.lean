import Inkpress.Document.Part
import Inkpress.Error
import Inkpress.Store.Tables

namespace Inkpress.Store

open Document (Part ImageMap StagedImage)

structure NewPost where
  title : String
  author : Option String
  deriving Repr, DecidableEq

namespace NewPost

def titleFits (p : NewPost) : Bool :=
  1 ≤ p.title.length && p.title.length ≤ 255

def authorFits (p : NewPost) : Bool :=
  p.author.all (·.length ≤ 100)

/-- The fields that are out of bounds, in alphabetical order. -/
def invalidFields (p : NewPost) : List String :=
  (if p.authorFits then [] else ["author"]) ++ (if p.titleFits then [] else ["title"])

end NewPost

structure Stored where
  post : Int
  blocks : Nat
  images : Nat
  degraded : Nat
  deriving Repr, DecidableEq

/-- Blocks are numbered in 32 bits. -/
def maxBlocks : Nat := Nat.pow 2 31

def dimension (n : Nat) : Option Int :=
  if n < Nat.pow 2 31 then some n else none

def unreadableImage (path : String) : Error :=
  .internal ("Failed to read staged image " ++ path)

def ofViolation (v : Violation) : Error :=
  .database v.message

def storeImage (readFile : String → Option ByteArray) (t : Tables) (post block : Int)
    (s : StagedImage) : Except Error Tables :=
  match readFile s.path with
  | none => .error (unreadableImage s.path)
  | some data =>
    match t.insertImage ⟨post, some block, s.fileName, data, some s.contentType,
        dimension s.width, dimension s.height⟩ with
    | .error v => .error (ofViolation v)
    | .ok (_, t) => .ok t

def storePart (readFile : String → Option ByteArray) (images : ImageMap) (post : Int)
    (total : Nat) (state : Tables × Stored) (part : Part × Nat) :
    Except Error (Tables × Stored) := do
  let (t, done) := state
  let (part, place) := part
  if maxBlocks ≤ place then
    .error (.invalidFormat ("Too many content blocks: " ++ toString total))
  else
    match part with
    | .paragraph text =>
      let (_, t) ← (t.insertBlock post BlockKind.paragraph.name (some text) place).mapError
        ofViolation
      .ok (t, { done with blocks := done.blocks + 1 })
    | .image id =>
      let (b, t) ← (t.insertBlock post BlockKind.image.name (some id) place).mapError ofViolation
      match images.staged? id with
      | some s =>
        let t ← storeImage readFile t post b.id s
        .ok (t, { done with blocks := done.blocks + 1, images := done.images + 1 })
      | none => .ok (t, { done with blocks := done.blocks + 1, degraded := done.degraded + 1 })

/-- Stores a post and its parts, of which pictures are read back from the files they were staged
in. -/
def storePost (readFile : String → Option ByteArray) (now : Moment) (p : NewPost)
    (parts : List Part) (images : ImageMap) (t : Tables) : Except Error (Stored × Tables) := do
  let (row, t) ← (t.insertPost p.title p.author now now).mapError fun v =>
    if v = .titleTaken then Error.duplicateTitle p.title else ofViolation v
  let (t, done) ← parts.zipIdx.foldlM (storePart readFile images row.id parts.length)
    (t, ⟨row.id, 0, 0, 0⟩)
  .ok (done, t)

end Inkpress.Store
