import Inkpress.Zip.Archive

namespace Inkpress.Zip

def littleOctets : Nat → Nat → List UInt8
  | 0, _ => []
  | count + 1, n => (n % 256).toUInt8 :: littleOctets count (n / 256)

def fields (fs : List (Nat × Nat)) : ByteArray :=
  ⟨(fs.flatMap fun (count, n) => littleOctets count n).toArray⟩

namespace Writer

def common (name data : ByteArray) : List (Nat × Nat) :=
  [(2, 20), (2, 0x0800), (2, 0), (2, 0), (2, 0x21), (4, (crc32 data).toNat), (4, data.size),
    (4, data.size), (2, name.size), (2, 0)]

def header (name data : ByteArray) : ByteArray :=
  fields ((4, 0x04034b50) :: common name data) ++ name ++ data

def entry (name data : ByteArray) (start : Nat) : ByteArray :=
  fields ((4, 0x02014b50) :: (2, 20) :: common name data ++
    [(2, 0), (2, 0), (2, 0), (4, 0), (4, start)]) ++ name

def add (written : ByteArray × ByteArray) (m : String × ByteArray) : ByteArray × ByteArray :=
  let name := m.1.toUTF8
  (written.1 ++ header name m.2, written.2 ++ entry name m.2 written.1.size)

def trailer (count size start : Nat) : ByteArray :=
  fields [(4, 0x06054b50), (2, 0), (2, 0), (2, count), (2, count), (4, size), (4, start), (2, 0)]

end Writer

def write (members : List (String × ByteArray)) : ByteArray :=
  let (body, directory) := members.foldl Writer.add (.empty, .empty)
  body ++ directory ++ Writer.trailer members.length directory.size body.size

end Inkpress.Zip
