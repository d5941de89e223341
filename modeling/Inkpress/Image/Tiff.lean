import Inkpress.Image.Basic

namespace Inkpress.Image.Tiff

open Bytes (little? big? slice? hasTextAt)

def number? (b : ByteArray) (pos n : Nat) : Option Nat :=
  if hasTextAt b 0 "II" then little? b pos n else big? b pos n

def kindSize : Nat → Nat
  | 1 | 2 | 6 | 7 => 1
  | 3 | 8 => 2
  | 4 | 9 | 11 | 13 => 4
  | 5 | 10 | 12 | 16 | 17 | 18 => 8
  | _ => 0

def isUnsigned (kind : Nat) : Bool :=
  [1, 3, 4, 13, 16, 18].contains kind

/-- The values of a directory entry, which stand in it or, if they are long, where it says. -/
def values? (b : ByteArray) (pos : Nat) : Option (List Nat) := do
  let kind ← number? b (pos + 2) 2
  let count ← number? b (pos + 4) 4
  let size := kindSize kind
  guard (isUnsigned kind)
  let start ← if size * count ≤ 4 then some (pos + 8) else number? b (pos + 8) 4
  let _ ← slice? b start (size * count)
  (List.range count).mapM fun i => number? b (start + size * i) size

structure Directory where
  entries : List Nat

def directory? (b : ByteArray) (pos : Nat) : Option Directory := do
  let count ← number? b pos 2
  let next ← number? b (pos + 2 + 12 * count) 4
  guard (next = 0 ∨ next ≠ pos)
  some ⟨(List.range count).map fun i => pos + 2 + 12 * i⟩

namespace Directory

def entry? (d : Directory) (b : ByteArray) (tag : Nat) : Option Nat :=
  d.entries.reverse.find? fun pos =>
    number? b pos 2 = some tag && (number? b (pos + 2) 2).any (kindSize · ≠ 0)

def has (d : Directory) (b : ByteArray) (tag : Nat) : Bool :=
  (d.entry? b tag).isSome

def listOr (d : Directory) (b : ByteArray) (tag : Nat) (absent : List Nat) : Option (List Nat) :=
  match d.entry? b tag with
  | none => some absent
  | some pos => values? b pos

def single? (d : Directory) (b : ByteArray) (tag : Nat) : Option Nat := do
  match ← values? b (← d.entry? b tag) with
  | [n] => some n
  | _ => none

def singleOr (d : Directory) (b : ByteArray) (tag absent : Nat) : Option Nat :=
  if d.has b tag then d.single? b tag else some absent

end Directory

structure Samples where
  photometric : Nat
  count : Nat
  depth : Nat

def samples? (b : ByteArray) (d : Directory) : Option Samples := do
  let photometric ← d.single? b 262
  let count ← d.singleOr b 277 1
  let depths ← d.listOr b 258 [1]
  let formats ← d.listOr b 339 []
  let depth ← depths.head?
  guard (depths.all (· = depth) ∧ (depths.length = 1 ∨ depths.length = count))
  guard (formats.all fun f => (f = 1 ∧ depth ≤ 16) ∨ (f = 3 ∧ depth = 32))
  some ⟨photometric, count, depth⟩

def Samples.isKnown (s : Samples) : Bool :=
  match s.photometric with
  | 0 | 1 => s.count = 1 && [1, 8, 16].contains s.depth
  | 2 => (s.count = 3 || s.count = 4) && [8, 16, 32].contains s.depth
  | 5 => s.count = 4 && s.depth = 8
  | _ => false

def pieces (whole piece : Nat) : Nat :=
  (whole - 1) / piece + 1

def coversPicture (b : ByteArray) (d : Directory) (size : Size) (planes : Nat) : Bool :=
  ((match d.has b 273, d.has b 279, d.has b 324, d.has b 325 with
    | true, true, false, false => do
      let offsets ← d.listOr b 273 []
      let counts ← d.listOr b 279 []
      let rows ← d.singleOr b 278 size.height
      guard (0 < rows ∧ offsets.length = counts.length)
      guard (offsets.length = pieces size.height rows * planes)
    | false, false, true, true => do
      let width ← d.single? b 322
      let height ← d.single? b 323
      let offsets ← d.listOr b 324 []
      let counts ← d.listOr b 325 []
      guard (0 < width ∧ 0 < height ∧ offsets.length = counts.length)
      guard (offsets.length = pieces size.width width * pieces size.height height * planes)
    | _, _, _, _ => none) : Option Unit).isSome

def size? (b : ByteArray) : Option Size := do
  let d ← directory? b (← number? b 4 4)
  let width ← d.single? b 256
  let height ← d.single? b 257
  guard (0 < width ∧ 0 < height)
  let samples ← samples? b d
  let _ ← d.singleOr b 259 1
  let predictor ← d.singleOr b 317 1
  let arrangement ← d.singleOr b 284 1
  guard (samples.isKnown ∧ [1, 2, 3].contains predictor ∧ [1, 2].contains arrangement)
  guard (coversPicture b d ⟨width, height⟩ (if arrangement = 2 then samples.count else 1))
  some ⟨width, height⟩

end Inkpress.Image.Tiff
