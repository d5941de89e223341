import Inkpress.Bytes

namespace Inkpress

namespace Bytes

def big? (b : ByteArray) (pos : Nat) (n : Nat) : Option Nat :=
  (List.range n).foldlM (fun acc i => b[pos + i]?.map fun octet => 256 * acc + octet.toNat) 0

def hasAt (b : ByteArray) (pos : Nat) (octets : List UInt8) : Bool :=
  octets.zipIdx.all fun (o, i) => b[pos + i]? = some o

def hasTextAt (b : ByteArray) (pos : Nat) (s : String) : Bool :=
  hasAt b pos (s.toList.map fun c => c.toNat.toUInt8)

def signed (bits : Nat) (n : Nat) : Int :=
  if n < Nat.pow 2 (bits - 1) then n else (n : Int) - Nat.pow 2 bits

end Bytes

namespace Image

structure Size where
  width : Nat
  height : Nat
  deriving Repr, DecidableEq

/-- What libraries answer about pictures: the content type that a file name stands for, if any, and the
size of a picture, if it is one. -/
class Library where
  kindOf? : String → Option String
  size? : ByteArray → Option Size

end Image

end Inkpress
