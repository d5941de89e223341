import Inkpress.Image.Basic

namespace Inkpress.Image.Png

open Bytes (big? slice? hasAt)

def signature : List UInt8 := [0x89, 0x50, 0x4E, 0x47, 0x0D, 0x0A, 0x1A, 0x0A]

structure Header where
  size : Size
  depth : Nat
  color : Nat

def depths : Nat → List Nat
  | 0 => [1, 2, 4, 8, 16]
  | 2 => [8, 16]
  | 3 => [1, 2, 4, 8]
  | 4 => [8, 16]
  | 6 => [8, 16]
  | _ => []

def channels : Nat → Nat
  | 2 => 3
  | 3 => 3
  | 4 => 2
  | 6 => 4
  | _ => 1

def Header.rowBytes (h : Header) : Nat :=
  h.size.width * channels h.color * (if h.depth = 16 then 2 else 1)

def maxRow : Nat := 512 * 1024 * 1024

def header? (b : ByteArray) (pos : Nat) : Option Header := do
  let width ← big? b pos 4
  let height ← big? b (pos + 4) 4
  let depth ← big? b (pos + 8) 1
  let color ← big? b (pos + 9) 1
  let compression ← big? b (pos + 10) 1
  let filter ← big? b (pos + 11) 1
  let interlace ← big? b (pos + 12) 1
  guard (0 < width ∧ 0 < height)
  guard (depth ∈ depths color)
  guard (compression = 0 ∧ filter = 0 ∧ interlace ≤ 1)
  some ⟨⟨width, height⟩, depth, color⟩

def isSound (b : ByteArray) (pos length : Nat) : Bool :=
  match slice? b (pos + 4) (length + 4), big? b (pos + 8 + length) 4 with
  | some covered, some sum => (Zip.crc32 covered).toNat = sum
  | _, _ => false

/-- Whether data begins, looking at the chunks from a position on. A chunk that a reader may not
skip has a sound checksum. The last argument bounds the number of chunks. -/
def reachesData (b : ByteArray) (pos : Nat) : Nat → Bool
  | 0 => false
  | fuel + 1 =>
    match big? b pos 4, slice? b (pos + 4) 4 with
    | some length, some kind =>
      if hasAt kind 0 [0x49, 0x44, 0x41, 0x54] then true
      else if hasAt kind 0 [0x49, 0x45, 0x4E, 0x44] then false
      else if b.size < pos + 12 + length then false
      else
        let critical := kind[0]?.all fun c => c &&& 0x20 = 0
        if critical ∧ !isSound b pos length then false
        else reachesData b (pos + 12 + length) fuel
    | _, _ => false

def size? (b : ByteArray) : Option Size := do
  guard (hasAt b 0 signature)
  guard (hasAt b 8 [0, 0, 0, 13, 0x49, 0x48, 0x44, 0x52])
  let h ← header? b 16
  guard (isSound b 8 13)
  guard (h.rowBytes ≤ maxRow)
  guard (reachesData b 33 b.size)
  some h.size

end Inkpress.Image.Png
