import Inkpress.Image.Basic

namespace Inkpress.Image.Jpeg

open Bytes (big? slice? hasTextAt)

structure Frame where
  size : Size
  components : List Nat

def soundSampling (octet : Nat) : Bool :=
  let powers := [1, 2, 4, 8]
  powers.contains (octet / 16) && powers.contains (octet % 16)

def frame? (b : ByteArray) (pos : Nat) : Option Frame := do
  let length ← big? b pos 2
  let precision ← big? b (pos + 2) 1
  let height ← big? b (pos + 3) 2
  let width ← big? b (pos + 5) 2
  let count ← big? b (pos + 7) 1
  guard (precision = 8 ∧ 0 < width ∧ 0 < height)
  guard (0 < count ∧ count ≤ 4 ∧ length = 8 + 3 * count)
  let components ← (List.range count).mapM fun i => do
    let id ← big? b (pos + 8 + 3 * i) 1
    let sampling ← big? b (pos + 9 + 3 * i) 1
    let quantization ← big? b (pos + 10 + 3 * i) 1
    guard (soundSampling sampling ∧ quantization < 4)
    some id
  some ⟨⟨width, height⟩, components⟩

def soundScan (b : ByteArray) (pos : Nat) (frame : Frame) : Bool :=
  ((do
    let length ← big? b pos 2
    let count ← big? b (pos + 2) 1
    guard (1 ≤ count ∧ count ≤ 4 ∧ length = 6 + 2 * count)
    let ids ← (List.range count).mapM fun i => big? b (pos + 3 + 2 * i) 1
    guard (ids.Nodup ∧ ids.all fun id => frame.components.contains id)
    let approximation ← big? b (pos + 5 + 2 * count) 1
    guard (approximation / 16 ≤ 13 ∧ approximation % 16 ≤ 13)
    some ()) : Option Unit).isSome

def soundQuantization (b : ByteArray) (pos left : Nat) : Nat → Bool
  | 0 => left = 0
  | fuel + 1 =>
    if left = 0 then true
    else match big? b pos 1 with
      | none => false
      | some info =>
        let size := 64 * (info / 16 + 1) + 1
        if 1 < info / 16 ∨ 3 < info % 16 ∨ left < size ∨ b.size < pos + size then false
        else soundQuantization b (pos + size) (left - size) fuel

def codesFit (counts : List Nat) : Bool :=
  (counts.foldlM (fun left n => if 2 * left < n then none else some (2 * left - n)) 1).isSome

def soundCodes (b : ByteArray) (pos left : Nat) : Nat → Bool
  | 0 => left = 0
  | fuel + 1 =>
    if left ≤ 16 then left = 0
    else match big? b pos 1, slice? b (pos + 1) 16 with
      | some info, some counts =>
        let counts := counts.toList.map (·.toNat)
        let total := counts.sum
        let size := 17 + total
        if 1 < info / 16 ∨ 3 < info % 16 ∨ 256 < total ∨ left < size ∨ b.size < pos + size
            ∨ !codesFit counts then false
        else if info / 16 = 0 ∧ (b.extract (pos + 17) (pos + size)).toList.any (15 < ·) then false
        else soundCodes b (pos + size) (left - size) fuel
      | _, _ => false

inductive Step
  | next (pos : Nat) (frame : Option Frame)
  | found (size : Size)
  | broken

def segment (b : ByteArray) (marker pos : Nat) (frame : Option Frame) : Step :=
  match big? b pos 2 with
  | none => .broken
  | some length =>
    if marker = 0xD9 ∨ marker = 0xCC ∨ marker = 0xDC then .broken
    else if marker = 0xC4 then
      if 2 ≤ length ∧ soundCodes b (pos + 2) (length - 2) b.size then .next (pos + length) frame
      else .broken
    else if marker = 0xDB then
      if 2 ≤ length ∧ soundQuantization b (pos + 2) (length - 2) b.size then
        .next (pos + length) frame
      else .broken
    else if marker = 0xDD then
      if length = 4 ∧ (big? b (pos + 2) 2).isSome then .next (pos + 4) frame else .broken
    else if 0xC0 ≤ marker ∧ marker ≤ 0xC2 then
      match frame, frame? b pos with
      | none, some f => .next (pos + length) (some f)
      | _, _ => .broken
    else if 0xC3 ≤ marker ∧ marker ≤ 0xCF ∧ marker ≠ 0xC8 then .broken
    else if marker = 0xDA then
      match frame with
      | some f => if soundScan b pos f then .found f.size else .broken
      | none => .broken
    else if length < 2 then .broken
    else if (marker = 0xE1 ∨ marker = 0xE2 ∨ marker = 0xEE) ∧ b.size < pos + length then .broken
    else if marker = 0xEE ∧ length < 14 then .broken
    else if marker = 0xEE ∧ hasTextAt b (pos + 2) "Adobe"
        ∧ !(big? b (pos + 13) 1).any (· ≤ 2) then .broken
    else .next (pos + length) frame

/-- Looks for markers from a position on: an octet of ones, after which more of them and zeros do
not count. The last argument bounds the number of octets looked at. -/
def scan (b : ByteArray) (pos last : Nat) (frame : Option Frame) : Nat → Option Size
  | 0 => none
  | fuel + 1 =>
    match big? b pos 1 with
    | none => none
    | some m =>
      if last = 0xFF then
        if m = 0xFF ∨ m = 0 then scan b (pos + 1) last frame fuel
        else match segment b m (pos + 1) frame with
          | .next pos frame => scan b pos m frame fuel
          | .found size => some size
          | .broken => none
      else scan b (pos + 1) m frame fuel

def size? (b : ByteArray) : Option Size :=
  scan b 2 0 none b.size

end Inkpress.Image.Jpeg
