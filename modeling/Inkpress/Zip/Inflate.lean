import Inkpress.Zip.Huffman

namespace Inkpress.Zip.Inflate

def lengths (wide : Bool) : Array (Nat × Nat) :=
  #[(3, 0), (4, 0), (5, 0), (6, 0), (7, 0), (8, 0), (9, 0), (10, 0), (11, 1), (13, 1), (15, 1),
    (17, 1), (19, 2), (23, 2), (27, 2), (31, 2), (35, 3), (43, 3), (51, 3), (59, 3), (67, 4),
    (83, 4), (99, 4), (115, 4), (131, 5), (163, 5), (195, 5), (227, 5),
    if wide then (3, 16) else (258, 0)]

def distances (wide : Bool) : Array (Nat × Nat) :=
  #[(1, 0), (2, 0), (3, 0), (4, 0), (5, 1), (7, 1), (9, 2), (13, 2), (17, 3), (25, 3), (33, 4),
    (49, 4), (65, 5), (97, 5), (129, 6), (193, 6), (257, 7), (385, 7), (513, 8), (769, 8),
    (1025, 9), (1537, 9), (2049, 10), (3073, 10), (4097, 11), (6145, 11), (8193, 12), (12289, 12),
    (16385, 13), (24577, 13)] ++ if wide then #[(32769, 14), (49153, 14)] else #[]

def lengthOrder : List Nat :=
  [16, 17, 18, 0, 8, 7, 9, 6, 10, 5, 11, 4, 12, 3, 13, 2, 14, 1, 15]

structure Codes where
  literals : Huffman
  distances : Huffman

def fixedCodes : Codes where
  literals := .ofLengths (Array.ofFn fun i : Fin 288 =>
    if i.val < 144 then 8 else if i.val < 256 then 9 else if i.val < 280 then 7 else 8)
  distances := .ofLengths (Array.replicate 30 5)

def takeExtra (bits : Bits) (entry : Option (Nat × Nat)) : Reading (Nat × Bits) :=
  match entry with
  | none => .corrupt
  | some (base, extra) =>
    match bits.take extra with
    | none => .ended
    | some (n, bits) => .ok (base + n, bits)

/-- Appends a copy of earlier output; a copy may reach into itself. -/
def copy (out : ByteArray) (distance : Nat) : Nat → ByteArray
  | 0 => out
  | n + 1 => copy (out.push (out[out.size - distance]?.getD 0)) distance n

structure State where
  bits : Bits
  out : ByteArray

inductive Outcome
  | done (s : State)
  | ended (out : ByteArray)
  | corrupt

/-- Reads the symbols of a block up to its end mark. The first argument bounds their number. -/
def symbols (wide : Bool) (codes : Codes) : Nat → State → Outcome
  | 0, s => .ended s.out
  | fuel + 1, s =>
    match codes.literals.decode s.bits with
    | .ended => .ended s.out
    | .corrupt => .corrupt
    | .ok (symbol, bits) =>
      if symbol < 256 then symbols wide codes fuel ⟨bits, s.out.push symbol.toUInt8⟩
      else if symbol = 256 then .done ⟨bits, s.out⟩
      else
        match takeExtra bits (lengths wide)[symbol - 257]? with
        | .ended => .ended s.out
        | .corrupt => .corrupt
        | .ok (length, bits) =>
          match codes.distances.decode bits with
          | .ended => .ended s.out
          | .corrupt => .corrupt
          | .ok (symbol, bits) =>
            match takeExtra bits (distances wide)[symbol]? with
            | .ended => .ended s.out
            | .corrupt => .corrupt
            | .ok (distance, bits) =>
              if s.out.size < distance then .corrupt
              else symbols wide codes fuel ⟨bits, copy s.out distance length⟩

def codeLengths (code : Huffman) (wanted : Nat) :
    Nat → Array Nat → Bits → Reading (Array Nat × Bits)
  | 0, read, bits => if read.size = wanted then .ok (read, bits) else .corrupt
  | fuel + 1, read, bits =>
    if wanted < read.size then .corrupt
    else if read.size = wanted then .ok (read, bits)
    else
      match code.decode bits with
      | .ended => .ended
      | .corrupt => .corrupt
      | .ok (symbol, bits) =>
        let again (length base extra : Nat) : Reading (Array Nat × Bits) :=
          match bits.take extra with
          | none => .ended
          | some (n, bits) =>
            codeLengths code wanted fuel (read ++ Array.replicate (base + n) length) bits
        if symbol < 16 then codeLengths code wanted fuel (read.push symbol) bits
        else if symbol = 16 then
          match read.back? with
          | none => .corrupt
          | some last => again last 3 2
        else if symbol = 17 then again 0 3 3
        else again 0 11 7

def takeTriples : Nat → Bits → Option (List Nat × Bits)
  | 0, bits => some ([], bits)
  | n + 1, bits => do
    let (x, bits) ← bits.take 3
    let (xs, bits) ← takeTriples n bits
    some (x :: xs, bits)

def dynamicCodes (bits : Bits) : Reading (Codes × Bits) :=
  match bits.take 14 with
  | none => .ended
  | some (sizes, bits) =>
    let literals := sizes % 32 + 257
    let distances := sizes / 32 % 32 + 1
    let triples := sizes / 1024 + 4
    if 286 < literals ∨ 30 < distances then .corrupt
    else
      match takeTriples triples bits with
      | none => .ended
      | some (xs, bits) =>
        let table := (lengthOrder.zip xs).foldl (fun a (i, n) => a.set! i n) (Array.replicate 19 0)
        let code := Huffman.ofLengths table
        if !code.isComplete then .corrupt
        else
          match codeLengths code (literals + distances) (literals + distances) #[] bits with
          | .ended => .ended
          | .corrupt => .corrupt
          | .ok (all, bits) =>
            let l := Huffman.ofLengths (all.extract 0 literals)
            let d := Huffman.ofLengths (all.extract literals all.size)
            if all[256]? = some 0 then .corrupt
            else if !(l.isComplete || l.isSingle) || !(d.isComplete || d.isSingle) then .corrupt
            else .ok (⟨l, d⟩, bits)

def stored (s : State) : Outcome :=
  match s.bits.align.take 32 with
  | none => .ended s.out
  | some (sizes, bits) =>
    let n := sizes % 65536
    if n + sizes / 65536 ≠ 65535 then .corrupt
    else
      let (bytes, bits) := bits.takeBytes n
      if bytes.size < n then .ended (s.out ++ bytes) else .done ⟨bits, s.out ++ bytes⟩

def blocks (wide : Bool) : Nat → State → Outcome
  | 0, s => .ended s.out
  | fuel + 1, s =>
    match s.bits.take 3 with
    | none => .ended s.out
    | some (header, bits) =>
      let s : State := ⟨bits, s.out⟩
      let bound := 8 * bits.data.size
      let outcome := match header / 2 with
        | 0 => stored s
        | 1 => symbols wide fixedCodes bound s
        | 2 =>
          match dynamicCodes bits with
          | .ended => .ended s.out
          | .corrupt => .corrupt
          | .ok (codes, bits) => symbols wide codes bound ⟨bits, s.out⟩
        | _ => .corrupt
      match outcome with
      | .done s => if header % 2 = 1 then .done s else blocks wide fuel s
      | .ended out => .ended out
      | .corrupt => .corrupt

end Inflate

/-- The decompressed data, or `none` if the data is not in the format. Every symbol and every block
takes at least one bit, which bounds their number. -/
def inflate (wide : Bool) (data : ByteArray) : Option ByteArray :=
  match Inflate.blocks wide (8 * data.size + 1) ⟨⟨data, 0⟩, .empty⟩ with
  | .done s => some s.out
  | .ended out => some out
  | .corrupt => none

end Inkpress.Zip
