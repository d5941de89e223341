

namespace Inkpress.Zip

structure Bits where
  data : ByteArray
  read : Nat

/-- The outcome of reading compressed data: it may end early, or be no compressed data at all. -/
inductive Reading (α : Type)
  | ok (value : α)
  | ended
  | corrupt

namespace Bits

def bit? (b : Bits) : Option Nat :=
  b.data[b.read / 8]?.map fun byte => (byte.toNat >>> (b.read % 8)) % 2

def take (b : Bits) : Nat → Option (Nat × Bits)
  | 0 => some (0, b)
  | n + 1 =>
    match b.bit? with
    | none => none
    | some low =>
      match take { b with read := b.read + 1 } n with
      | none => none
      | some (rest, b) => some (low + 2 * rest, b)

def align (b : Bits) : Bits :=
  { b with read := (b.read + 7) / 8 * 8 }

def takeBytes (b : Bits) (n : Nat) : ByteArray × Bits :=
  let start := b.read / 8
  (b.data.extract start (start + n), { b with read := b.read + 8 * n })

end Bits

end Inkpress.Zip

namespace Inkpress.Zip

/-- A canonical code: how many codes have each length from 1 to 15, and the symbols by code. -/
structure Huffman where
  counts : List Nat
  symbols : Array Nat

namespace Huffman

def unused? (counts : List Nat) : Option Nat :=
  counts.foldlM (fun left n => if 2 * left < n then none else some (2 * left - n)) 1

def withLength (lengths : Array Nat) (n : Nat) : List Nat :=
  (List.range lengths.size).filter (fun i => lengths[i]? = some n)

def ofLengths (lengths : Array Nat) : Huffman :=
  let byLength := (List.range 15).map fun i => withLength lengths (i + 1)
  ⟨byLength.map List.length, byLength.flatten.toArray⟩

def isComplete (h : Huffman) : Bool :=
  unused? h.counts = some 0

def isSingle (h : Huffman) : Bool :=
  h.symbols.size ≤ 1 && h.counts.head? = some h.symbols.size

/-- Reads one code: `first` is the first code of the current length, `index` the place of its
symbol, `code` the bits read so far. -/
def walk (h : Huffman) : List Nat → Nat → Nat → Nat → Bits → Reading (Nat × Bits)
  | [], _, _, _, _ => .corrupt
  | n :: ns, code, first, index, bits =>
    match bits.take 1 with
    | none => .ended
    | some (b, bits) =>
      let code := 2 * code + b
      if code < first + n then
        match h.symbols[index + (code - first)]? with
        | some s => .ok (s, bits)
        | none => .corrupt
      else walk h ns code (2 * (first + n)) (index + n) bits

def decode (h : Huffman) (bits : Bits) : Reading (Nat × Bits) :=
  h.walk h.counts 0 0 0 bits

end Huffman

end Inkpress.Zip
