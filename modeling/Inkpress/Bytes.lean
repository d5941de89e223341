namespace Inkpress.Bytes

def little? (b : ByteArray) (pos : Nat) : Nat → Option Nat
  | 0 => some 0
  | n + 1 =>
    match b[pos]?, little? b (pos + 1) n with
    | some low, some high => some (low.toNat + 256 * high)
    | _, _ => none

def slice? (b : ByteArray) (pos size : Nat) : Option ByteArray :=
  if pos + size ≤ b.size then some (b.extract pos (pos + size)) else none

def ofString (s : String) : ByteArray :=
  s.toUTF8

end Inkpress.Bytes

namespace Inkpress.Zip

def crcBits : Nat → UInt32 → UInt32
  | 0, r => r
  | n + 1, r => crcBits n (if r &&& 1 = 1 then (r >>> 1) ^^^ 0xEDB88320 else r >>> 1)

def crcByte (r : UInt32) (b : UInt8) : UInt32 :=
  crcBits 8 (r ^^^ b.toUInt32)

def crc32 (bytes : ByteArray) : UInt32 :=
  bytes.foldl crcByte 0xFFFFFFFF ^^^ 0xFFFFFFFF

end Inkpress.Zip
