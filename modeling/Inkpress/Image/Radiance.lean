import Inkpress.Binary64
import Inkpress.Image.Anymap

namespace Inkpress.Image.Radiance

def lines : List UInt8 → List (List UInt8)
  | [] => []
  | c :: cs =>
    if c = 10 then [] :: lines cs
    else match lines cs with
      | [] => [[c]]
      | l :: ls => (c :: l) :: ls

def words (line : List UInt8) : List (List UInt8) :=
  ((line.splitBy fun a b => Anymap.isSpace a == Anymap.isSpace b).filter
    fun w => w.any (!Anymap.isSpace ·))

def isNumber (word : List UInt8) : Bool :=
  (Binary64.ofText? (word.map fun c => Char.ofNat c.toNat)).isSome

def ascii (s : String) : List UInt8 :=
  s.toList.map fun c => c.toNat.toUInt8

def isSoundLine (line : List UInt8) : Bool :=
  let name := words (line.takeWhile (· ≠ 61))
  let values := words ((line.dropWhile (· ≠ 61)).drop 1)
  if line.head? = some 35 || !line.contains 61 then true
  else if name = [ascii "FORMAT"] then values = [ascii "32-bit_rle_rgbe"]
  else if name = [ascii "EXPOSURE"] || name = [ascii "PIXASPECT"] then
    values.length = 1 && values.all isNumber
  else if name = [ascii "COLORCORR"] then values.length = 3 && values.all isNumber
  else true

def sizeLine? : List (List UInt8) → Option (List UInt8)
  | [] => none
  | [] :: rest => rest.head?
  | line :: rest => if isSoundLine line then sizeLine? rest else none

def size? (b : ByteArray) : Option Size := do
  let line ← sizeLine? ((lines b.toList).drop 1)
  match words line with
  | [[0x2D, 0x59], h, [0x2B, 0x58], w] =>
    let height ← Anymap.number? h
    let width ← Anymap.number? w
    guard (3 * width * height < Nat.pow 2 64)
    some ⟨width, height⟩
  | _ => none

end Inkpress.Image.Radiance
