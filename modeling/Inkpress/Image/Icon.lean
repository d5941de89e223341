import Inkpress.Image.Bitmap
import Inkpress.Image.Png

namespace Inkpress.Image.Icon

open Bytes (little? slice? hasAt)

structure Entry where
  width : Nat
  height : Nat
  depth : Nat
  position : Nat

def entry? (b : ByteArray) (pos : Nat) : Option Entry := do
  let width ← little? b pos 1
  let height ← little? b (pos + 1) 1
  let planes ← little? b (pos + 4) 2
  let depth ← little? b (pos + 6) 2
  let position ← little? b (pos + 12) 4
  guard (planes ≤ 256 ∧ depth ≤ 256)
  let side (n : Nat) := if n = 0 then 256 else n
  some ⟨side width, side height, depth, position⟩

def Entry.area (e : Entry) : Nat :=
  e.width * e.height

def better (a b : Entry) : Entry :=
  if a.depth < b.depth ∨ (a.depth = b.depth ∧ a.area < b.area) then b else a

def best? (entries : List Entry) : Option Entry :=
  entries.getLast?.map fun last => entries.dropLast.foldl better last

def size? (b : ByteArray) : Option Size := do
  let count ← little? b 4 2
  let entries ← (List.range count).mapM fun i => entry? b (6 + 16 * i)
  let best ← best? entries
  let _ ← slice? b best.position 8
  if hasAt b best.position Png.signature then
    let size ← Png.size? (b.extract best.position b.size)
    guard (size.width ≤ best.width ∧ size.height ≤ best.height)
    some size
  else
    let size ← Bitmap.sizeAt? b best.position
    some ⟨size.width, size.height / 2⟩

end Inkpress.Image.Icon
