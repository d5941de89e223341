import Inkpress.Image.Anymap
import Inkpress.Image.Basic
import Inkpress.Image.Bitmap
import Inkpress.Image.Gif
import Inkpress.Image.Icon
import Inkpress.Image.Jpeg
import Inkpress.Image.Kind
import Inkpress.Image.Png
import Inkpress.Image.Radiance
import Inkpress.Image.Tiff
import Inkpress.Image.Webp

namespace Inkpress.Image.Surface

open Bytes (little? slice? hasTextAt)

def neededFlags : Nat := 0x1007

def allowedFlags : Nat := 0x8A100F

def soundLongHeader (b : ByteArray) (pos : Nat) : Bool :=
  match little? b pos 4, little? b (pos + 4) 4, little? b (pos + 8) 4, little? b (pos + 12) 4,
    little? b (pos + 16) 4 with
  | some kind, some dimension, some use, some count, some alpha =>
    70 ≤ kind && kind ≤ 78 && 2 ≤ dimension && dimension ≤ 4 && (use = 0 || use = 4)
      && (dimension ≠ 4 || count = 1) && alpha ≤ 4
  | _, _, _, _, _ => false

def size? (b : ByteArray) : Option Size := do
  let _ ← slice? b 0 128
  let headerSize ← little? b 4 4
  let flags ← little? b 8 4
  let height ← little? b 12 4
  let width ← little? b 16 4
  let formatSize ← little? b 76 4
  let formatFlags ← little? b 80 4
  guard (headerSize = 124 ∧ formatSize = 32)
  guard (flags &&& neededFlags = neededFlags ∧ flags ||| allowedFlags = allowedFlags)
  guard (formatFlags / 4 % 2 = 1)
  guard (["DXT1", "DXT3", "DXT5"].any (hasTextAt b 84)
    || (hasTextAt b 84 "DX10" && soundLongHeader b 128))
  guard (width % 4 = 0 ∧ height % 4 = 0)
  some ⟨width, height⟩

end Inkpress.Image.Surface

namespace Inkpress.Image

open Bytes (big? hasAt hasTextAt)

/-- The formats that are recognised here. OpenEXR is none of them. -/
inductive Format
  | png | jpeg | gif | webp | tiff | bitmap | icon | anymap | qoi | farbfeld | radiance | surface
  deriving Repr, DecidableEq

namespace Format

def ofBytes? (b : ByteArray) : Option Format :=
  if hasAt b 0 Png.signature then some png
  else if hasAt b 0 [0xFF, 0xD8, 0xFF] then some jpeg
  else if Gif.isGif b then some gif
  else if hasTextAt b 0 "RIFF" && hasTextAt b 8 "WEBP" then some webp
  else if hasAt b 0 [0x4D, 0x4D, 0x00, 0x2A] || hasAt b 0 [0x49, 0x49, 0x2A, 0x00] then some tiff
  else if hasTextAt b 0 "DDS " then some surface
  else if hasTextAt b 0 "BM" then some bitmap
  else if hasAt b 0 [0, 0, 1, 0] then some icon
  else if hasTextAt b 0 "#?RADIANCE" then some radiance
  else if hasTextAt b 0 "qoif" then some qoi
  else if hasTextAt b 0 "farbfeld" then some farbfeld
  else if hasTextAt b 0 "P" && (b[1]?.any fun c => 0x31 ≤ c && c ≤ 0x37) then some anymap
  else none

end Format

def qoiSize? (b : ByteArray) : Option Size := do
  let width ← big? b 4 4
  let height ← big? b 8 4
  let channels ← big? b 12 1
  let space ← big? b 13 1
  guard (0 < width ∧ 0 < height ∧ width * height ≤ 400000000)
  guard ((channels = 3 ∨ channels = 4) ∧ space ≤ 1)
  some ⟨width, height⟩

def farbfeldSize? (b : ByteArray) : Option Size := do
  let width ← big? b 8 4
  let height ← big? b 12 4
  guard (8 * width * height < Nat.pow 2 64)
  some ⟨width, height⟩

def readSize? (b : ByteArray) : Option Size :=
  match Format.ofBytes? b with
  | none => none
  | some .png => Png.size? b
  | some .jpeg => Jpeg.size? b
  | some .gif => Gif.size? b
  | some .webp => Webp.size? b
  | some .tiff => Tiff.size? b
  | some .bitmap => Bitmap.size? b
  | some .icon => Icon.size? b
  | some .anymap => Anymap.size? b
  | some .qoi => qoiSize? b
  | some .farbfeld => farbfeldSize? b
  | some .radiance => Radiance.size? b
  | some .surface => Surface.size? b

/-- The library that the program runs with. -/
instance : Library where
  kindOf? := guessKind?
  size? := readSize?

end Inkpress.Image
