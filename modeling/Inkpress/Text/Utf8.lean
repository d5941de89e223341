

namespace Inkpress.Text.Utf8

structure Pending where
  value : Nat
  missing : Nat
  least : Nat
  most : Nat

structure Decoder where
  pending : Option Pending
  read : List (Option Char)

namespace Decoder

def start : Decoder := ⟨none, []⟩

/-- The first octet of a character. Overlong forms, surrogates and values past U+10FFFF have no
first or no second octet. -/
def first (read : List (Option Char)) (b : Nat) : Decoder :=
  if b < 0x80 then ⟨none, some (Char.ofNat b) :: read⟩
  else if b < 0xC2 then ⟨none, none :: read⟩
  else if b < 0xE0 then ⟨some ⟨b - 0xC0, 1, 0x80, 0xBF⟩, read⟩
  else if b = 0xE0 then ⟨some ⟨0, 2, 0xA0, 0xBF⟩, read⟩
  else if b = 0xED then ⟨some ⟨0xD, 2, 0x80, 0x9F⟩, read⟩
  else if b < 0xF0 then ⟨some ⟨b - 0xE0, 2, 0x80, 0xBF⟩, read⟩
  else if b = 0xF0 then ⟨some ⟨0, 3, 0x90, 0xBF⟩, read⟩
  else if b < 0xF4 then ⟨some ⟨b - 0xF0, 3, 0x80, 0xBF⟩, read⟩
  else if b = 0xF4 then ⟨some ⟨4, 3, 0x80, 0x8F⟩, read⟩
  else ⟨none, none :: read⟩

def step (d : Decoder) (byte : UInt8) : Decoder :=
  let b := byte.toNat
  match d.pending with
  | none => first d.read b
  | some p =>
    if p.least ≤ b ∧ b ≤ p.most then
      let value := p.value * 64 + (b - 0x80)
      if p.missing ≤ 1 then ⟨none, some (Char.ofNat value) :: d.read⟩
      else ⟨some ⟨value, p.missing - 1, 0x80, 0xBF⟩, d.read⟩
    else first (none :: d.read) b

def finish (d : Decoder) : List (Option Char) :=
  match d.pending with
  | none => d.read.reverse
  | some _ => (none :: d.read).reverse

end Decoder

def characters (bytes : ByteArray) : List (Option Char) :=
  (bytes.foldl Decoder.step Decoder.start).finish

def decode? (bytes : ByteArray) : Option String :=
  ((characters bytes).mapM id).map String.ofList

def decodeLossy (bytes : ByteArray) : String :=
  String.ofList ((characters bytes).map (·.getD '\uFFFD'))

def dropMark (bytes : ByteArray) : ByteArray :=
  if bytes.size ≥ 3 ∧ bytes[0]? = some 0xEF ∧ bytes[1]? = some 0xBB ∧ bytes[2]? = some 0xBF then
    bytes.extract 3 bytes.size
  else bytes

end Inkpress.Text.Utf8
