import Inkpress.Json.Reader
import Inkpress.Store.Database
import Inkpress.Text.Base64
import Inkpress.Text.Basic
import Inkpress.Text.Utf8

namespace Inkpress.Store

namespace Snapshot

def ofMoment (m : Moment) : Json :=
  .array [.int m.year, .nat m.month, .nat m.day, .nat m.hour, .nat m.minute, .nat m.second,
    .int m.offset]

def ofInt? (n : Option Int) : Json :=
  match n with
  | some n => .int n
  | none => .null

def ofPost (p : Post) : Json :=
  .array [.int p.id, .text p.title, .ofText? p.author, ofMoment p.published, ofMoment p.modified]

def ofBlock (b : Block) : Json :=
  .array [.int b.id, .int b.post, .text b.kindName, .ofText? b.content, .int b.sequence]

def ofImage (i : Image) : Json :=
  .array [.int i.id, .int i.post, ofInt? i.block, .text i.name, .text (Text.Base64.encode i.data),
    .ofText? i.contentType, ofInt? i.width, ofInt? i.height]

def ofTables (t : Tables) : Json :=
  .array [.array (t.posts.map ofPost), .array (t.blocks.map ofBlock), .array (t.images.map ofImage),
    .int t.lastPost, .int t.lastBlock, .int t.lastImage]

def int? : Json → Option Int
  | .number literal => Text.Numeral.integer? literal.toList
  | _ => none

def nat? (j : Json) : Option Nat :=
  (int? j).map Int.toNat

def orNull {α : Type} (read : Json → Option α) : Json → Option (Option α)
  | .null => some none
  | j => (read j).map some

def moment? : Json → Option Moment
  | .array [y, mo, d, h, mi, s, o] => do
    some ⟨← int? y, ← nat? mo, ← nat? d, ← nat? h, ← nat? mi, ← nat? s, ← int? o⟩
  | _ => none

def post? : Json → Option Post
  | .array [id, title, author, published, modified] => do
    some ⟨← int? id, ← title.text?, ← orNull Json.text? author, ← moment? published,
      ← moment? modified⟩
  | _ => none

def block? : Json → Option Block
  | .array [id, post, kind, content, sequence] => do
    some ⟨← int? id, ← int? post, ← kind.text?, ← orNull Json.text? content, ← int? sequence⟩
  | _ => none

def image? : Json → Option Image
  | .array [id, post, block, name, data, contentType, width, height] => do
    some ⟨← int? id, ← int? post, ← orNull int? block, ← name.text?,
      ← Text.Base64.decode? (← data.text?), ← orNull Json.text? contentType, ← orNull int? width,
      ← orNull int? height⟩
  | _ => none

def list? {α : Type} (read : Json → Option α) : Json → Option (List α)
  | .array items => items.mapM read
  | _ => none

def tables? : Json → Option Tables
  | .array [posts, blocks, images, lastPost, lastBlock, lastImage] => do
    some ⟨← list? post? posts, ← list? block? blocks, ← list? image? images, ← int? lastPost,
      ← int? lastBlock, ← int? lastImage⟩
  | _ => none

end Snapshot

namespace Database

def toFile (d : Database) : ByteArray :=
  match d.tables with
  | some t => (Snapshot.ofTables t).render.toUTF8
  | none => .empty

def ofFile (content : ByteArray) : Database :=
  if content.isEmpty then bare
  else
    match Text.Utf8.decode? content >>= Json.read? >>= Snapshot.tables? with
    | some t => ⟨some t, false⟩
    | none => ⟨none, true⟩

end Database

end Inkpress.Store
