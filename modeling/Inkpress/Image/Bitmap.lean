import Inkpress.Image.Basic

namespace Inkpress.Image.Bitmap

open Bytes (little? slice? signed)

def maxSide : Int := 0xFFFF

def paletteColors (depth declared : Nat) : Option Nat :=
  if declared = 0 then some (Nat.pow 2 depth)
  else if declared ≤ Nat.pow 2 depth then some declared
  else none

def coreSize? (b : ByteArray) (pos : Nat) : Option Size := do
  let width ← little? b (pos + 4) 2
  let height ← little? b (pos + 6) 2
  let planes ← little? b (pos + 8) 2
  let depth ← little? b (pos + 10) 2
  guard (0 < width ∧ 0 < height)
  guard (planes = 1)
  guard (depth ∈ [1, 4, 8, 24])
  if depth ≠ 24 then
    let _ ← slice? b (pos + 12) (3 * Nat.pow 2 depth)
  some ⟨width, height⟩

def depths : Nat → List Nat
  | 0 => [1, 2, 4, 8, 16, 24, 32]
  | 1 => [8]
  | 2 => [4]
  | 3 => [16, 32]
  | _ => []

def dropZeros : Nat → Nat → Nat
  | 0, m => m
  | n + 1, m => if m % 2 = 0 then dropZeros n (m / 2) else m

def isSoundMask (depth mask : Nat) : Bool :=
  let run := dropZeros 32 mask
  run &&& (run + 1) = 0 && mask < Nat.pow 2 depth

def soundMasks (b : ByteArray) (pos headerSize depth : Nat) : Bool :=
  match little? b pos 4, little? b (pos + 4) 4, little? b (pos + 8) 4 with
  | some red, some green, some blue =>
    let alpha := if 56 ≤ headerSize then little? b (pos + 12) 4 else some 0
    [red, green, blue].all (fun m => m ≠ 0 && isSoundMask depth m) && alpha.any (isSoundMask depth)
  | _, _, _ => false

def infoSize? (b : ByteArray) (pos headerSize : Nat) : Option Size := do
  let width := signed 32 (← little? b (pos + 4) 4)
  let height := signed 32 (← little? b (pos + 8) 4)
  let planes ← little? b (pos + 12) 2
  let depth ← little? b (pos + 14) 2
  let packing ← little? b (pos + 16) 4
  let declared ← little? b (pos + 32) 4
  let _ ← little? b (pos + 36) 4
  guard (0 < width ∧ height ≠ 0 ∧ width ≤ maxSide ∧ height ≤ maxSide)
  guard (height ≠ -(Nat.pow 2 31 : Int))
  guard (planes = 1)
  -- rows that run downwards are not packed
  guard (0 < height ∨ packing = 0 ∨ packing = 3)
  guard (depth ∈ depths packing)
  if depth ≤ 8 then
    let colors ← paletteColors depth declared
    let _ ← slice? b (pos + headerSize) (4 * colors)
  if packing = 3 then
    guard (soundMasks b (pos + 40) headerSize depth)
  some ⟨width.toNat, height.natAbs⟩

def sizeAt? (b : ByteArray) (pos : Nat) : Option Size := do
  let headerSize ← little? b pos 4
  if headerSize = 12 then coreSize? b pos
  else do
    guard (headerSize ∈ [40, 52, 56, 108, 124])
    infoSize? b pos headerSize

def size? (b : ByteArray) : Option Size :=
  sizeAt? b 14

end Inkpress.Image.Bitmap
