import Inkpress.Bytes
import Inkpress.Text.Utf8
import Inkpress.Zip.Inflate

namespace Inkpress.Zip

open Bytes (little? slice?)

inductive Content
  | bytes (data : ByteArray)
  /-- The member is listed, but its header, protection or method does not let it be opened. -/
  | unopened
  /-- The member opens, but its data is damaged or fails its checksum. -/
  | unread

structure Member where
  name : String
  content : Content

structure Archive where
  members : List Member

namespace Archive

/-- The member of a name; of several the last one counts. -/
def find? (a : Archive) (name : String) : Option Content :=
  (a.members.reverse.find? (·.name = name)).map (·.content)

def ofMembers (members : List (String × ByteArray)) : Archive :=
  ⟨members.map fun (name, data) => ⟨name, .bytes data⟩⟩

end Archive

def highCharacters : List Char :=
  ("ÇüéâäàåçêëèïîìÄÅÉæÆôöòûùÿÖÜ¢£¥₧ƒáíóúñÑªº¿⌐¬½¼¡«»░▒▓│┤╡╢╖╕╣║╗╝╜╛┐└┴┬├─┼╞╟" ++
    "╚╔╩╦╠═╬╧╨╤╥╙╘╒╓╫╪┘┌█▄▌▐▀αßΓπΣσµτΦΘΩδ∞φε∩≡±≥≤⌠⌡÷≈°∙·√ⁿ²■\u00A0").toList

def codePageName (b : ByteArray) : String :=
  String.ofList (b.toList.map fun octet =>
    if octet < 128 then Char.ofNat octet.toNat else highCharacters.getD (octet.toNat - 128) '?')

structure Entry where
  name : String
  flags : Nat
  method : Nat
  checksum : Nat
  compressed : Nat
  header : Nat

namespace Entry

def hasExtra (b : ByteArray) (id : Nat) (pos stop : Nat) : Nat → Bool
  | 0 => false
  | fuel + 1 =>
    if stop < pos + 4 then false
    else match little? b pos 2, little? b (pos + 2) 2 with
      | some n, some size => n = id || hasExtra b id (pos + 4 + size) stop fuel
      | _, _ => false

def read? (b : ByteArray) (shift pos : Nat) : Option (Entry × Nat) := do
  let signature ← little? b pos 4
  guard (signature = 0x02014b50)
  let flags ← little? b (pos + 8) 2
  let method ← little? b (pos + 10) 2
  let checksum ← little? b (pos + 16) 4
  let compressed ← little? b (pos + 20) 4
  let nameSize ← little? b (pos + 28) 2
  let extraSize ← little? b (pos + 30) 2
  let commentSize ← little? b (pos + 32) 2
  let header ← little? b (pos + 42) 4
  let name ← slice? b (pos + 46) nameSize
  let extra := pos + 46 + nameSize
  let _ ← slice? b extra (extraSize + commentSize)
  -- a member that declares this protection has to describe it
  guard (method ≠ 99 || hasExtra b 0x9901 extra (extra + extraSize) extraSize)
  let text := if flags >>> 11 % 2 = 1 then Text.Utf8.decodeLossy name else codePageName name
  some (⟨text, flags, method, checksum, compressed, shift + header⟩,
    extra + extraSize + commentSize)

def readAll? (b : ByteArray) (shift : Nat) : Nat → Nat → Option (List Entry)
  | 0, _ => some []
  | n + 1, pos => do
    let (e, next) ← read? b shift pos
    let es ← readAll? b shift n next
    some (e :: es)

def restore? (method : Nat) (data : ByteArray) : Option (Option ByteArray) :=
  match method with
  | 0 => some (some data)
  | 8 => some (inflate false data)
  | 9 => some (inflate true data)
  | 12 | 14 | 93 | 95 => some none
  | _ => none

def content (e : Entry) (b : ByteArray) : Content :=
  match little? b e.header 4, little? b (e.header + 26) 2, little? b (e.header + 28) 2 with
  | some signature, some nameSize, some extraSize =>
    if signature ≠ 0x04034b50 ∨ e.flags % 2 = 1 then .unopened
    else
      let start := e.header + 30 + nameSize + extraSize
      match restore? e.method (b.extract start (start + e.compressed)) with
      | none => .unopened
      | some none => .unread
      | some (some data) => if (crc32 data).toNat = e.checksum then .bytes data else .unread
  | _, _, _ => .unopened

end Entry

namespace Archive

def marks (b : ByteArray) (signature pos : Nat) : Bool :=
  little? b pos 4 = some signature

def firstMark? (b : ByteArray) (signature : Nat) : Nat → Nat → Option Nat
  | _, 0 => none
  | pos, n + 1 => if marks b signature pos then some pos else firstMark? b signature (pos + 1) n

/-- Reads the directory whose end record stands at a position. Everything may lie further back than
the record says, by as much as the directory does. -/
def ofEnd? (b : ByteArray) (pos : Nat) : Option Archive := do
  guard (marks b 0x06054b50 pos)
  let disk ← little? b (pos + 4) 2
  let directoryDisk ← little? b (pos + 6) 2
  let count ← little? b (pos + 8) 2
  let directory ← little? b (pos + 16) 4
  let commentSize ← little? b (pos + 20) 2
  let _ ← slice? b (pos + 22) commentSize
  guard (disk = directoryDisk)
  if count = 0 then
    guard (directory ≤ pos)
    some ⟨[]⟩
  else
    guard (directory < pos)
    let start ← firstMark? b 0x02014b50 directory (pos - directory)
    let entries ← Entry.readAll? b (start - directory) count start
    some ⟨entries.map fun e => ⟨e.name, e.content b⟩⟩

def ofEnds? (b : ByteArray) : Nat → Option Archive
  | 0 => none
  | pos + 1 => (ofEnd? b pos).or (ofEnds? b pos)

/-- The archive that some bytes hold, whatever stands before and after it. -/
def ofBytes? (b : ByteArray) : Option Archive :=
  ofEnds? b (b.size - 21)

end Archive

end Inkpress.Zip
