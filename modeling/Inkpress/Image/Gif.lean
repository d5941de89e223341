import Inkpress.Image.Basic

namespace Inkpress.Image.Gif

open Bytes (little? hasTextAt)

def isGif (b : ByteArray) : Bool :=
  hasTextAt b 0 "GIF87a" || hasTextAt b 0 "GIF89a"

def skipBlocks (b : ByteArray) (pos size : Nat) : Nat → Option Nat
  | 0 => none
  | fuel + 1 =>
    match little? b (pos + size) 1 with
    | none => none
    | some 0 => some (pos + size + 1)
    | some n => skipBlocks b (pos + size + 1) n fuel

def skipExtension (b : ByteArray) (pos : Nat) : Option Nat := do
  let kind ← little? b pos 1
  let size ← little? b (pos + 1) 1
  guard (kind ∈ [0x01, 0xF9, 0xFE, 0xFF])
  let next ← skipBlocks b (pos + 2) size b.size
  guard (kind ≠ 0xF9 ∨ next = pos + 7)
  some next

/-- Whether a frame begins after any extensions, or something else that is no extension. The end
mark may be the last octet only after an extension. -/
def reachesFrame (b : ByteArray) (pos : Nat) (extended : Bool) : Nat → Bool
  | 0 => false
  | fuel + 1 =>
    match little? b pos 1 with
    | some 0x21 =>
      match skipExtension b (pos + 1) with
      | some next => reachesFrame b next true fuel
      | none => false
    | some kind => pos + 1 < b.size || (extended && kind = 0x3B)
    | none => false

def size? (b : ByteArray) : Option Size := do
  let width ← little? b 6 2
  let height ← little? b 8 2
  let flags ← little? b 10 1
  let palette := if flags ≥ 128 then 3 * Nat.pow 2 (flags % 8 + 1) else 0
  guard (reachesFrame b (13 + palette) false b.size)
  some ⟨width, height⟩

end Inkpress.Image.Gif
