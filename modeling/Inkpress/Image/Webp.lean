import Inkpress.Image.Basic

namespace Inkpress.Image.Webp

open Bytes (little? slice? hasTextAt hasAt)

def lossySize? (b : ByteArray) (pos : Nat) : Option Size := do
  let tag ← little? b pos 3
  guard (tag % 2 = 0 ∧ hasAt b (pos + 3) [0x9D, 0x01, 0x2A])
  let width ← little? b (pos + 6) 2
  let height ← little? b (pos + 8) 2
  let size : Size := ⟨width % 16384, height % 16384⟩
  guard (0 < size.width ∧ 0 < size.height)
  some size

def losslessSize? (b : ByteArray) (pos : Nat) : Option Size := do
  guard (hasAt b pos [0x2F])
  let bits ← little? b (pos + 1) 4
  guard (bits >>> 29 = 0)
  some ⟨(bits + 1) % 16384, ((bits >>> 14) + 1) % 16384⟩

structure Chunk where
  position : Nat
  size : Nat

def chunkAt? (b : ByteArray) (pos : Nat) : Option Chunk :=
  (little? b (pos + 4) 4).map fun size => ⟨pos, size⟩

namespace Chunk

def isNamed (b : ByteArray) (name : String) (c : Chunk) : Bool :=
  hasTextAt b c.position name

def stop (c : Chunk) : Nat :=
  c.position + 8 + c.size

def next (c : Chunk) : Nat :=
  c.stop + c.size % 2

def isSoundFrame (b : ByteArray) (c : Chunk) : Bool :=
  24 ≤ c.size && (chunkAt? b (c.position + 24)).isSome

def isSoundFirstFrame (b : ByteArray) (c : Chunk) : Bool :=
  match chunkAt? b (c.position + 24) with
  | none => false
  | some inner => c.stop < inner.next + 8 || (chunkAt? b inner.next).isSome

end Chunk

def chunks (b : ByteArray) (pos stop : Nat) : Nat → List Chunk
  | 0 => []
  | fuel + 1 =>
    if stop ≤ pos then []
    else match chunkAt? b pos with
      | none => []
      | some c => c :: chunks b c.next stop fuel

def holdAnimation (b : ByteArray) (cs : List Chunk) : Bool :=
  match cs.find? (Chunk.isNamed b "ANIM"), cs.find? (Chunk.isNamed b "ANMF") with
  | some a, some frame =>
    a.size = 6 && (slice? b (a.position + 8) 6).isSome && frame.isSoundFirstFrame b
  | _, _ => false

def extendedSize? (b : ByteArray) (pos length total : Nat) : Option Size := do
  let flags ← little? b pos 1
  let width ← little? b (pos + 4) 3
  let height ← little? b (pos + 7) 3
  guard ((width + 1) * (height + 1) < Nat.pow 2 32)
  let start := pos + length + length % 2
  let cs := chunks b start (start + (total - 12)) b.size
  let has (name : String) : Bool := cs.any (Chunk.isNamed b name)
  guard (cs.all fun c => !c.isNamed b "ANMF" || c.isSoundFrame b)
  guard (flags / 8 % 2 = 0 ∨ has "EXIF")
  guard (flags / 4 % 2 = 0 ∨ has "XMP ")
  guard (if flags / 2 % 2 = 1 then holdAnimation b cs else has "VP8 " != has "VP8L")
  some ⟨width + 1, height + 1⟩

def size? (b : ByteArray) : Option Size := do
  let total ← little? b 4 4
  let length ← little? b 16 4
  if hasTextAt b 12 "VP8 " then lossySize? b 20
  else if hasTextAt b 12 "VP8L" then losslessSize? b 20
  else if hasTextAt b 12 "VP8X" then extendedSize? b 20 length total
  else none

end Inkpress.Image.Webp
