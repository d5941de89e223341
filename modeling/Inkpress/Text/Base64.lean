

namespace Inkpress.Text.Base64

def alphabet : List Char :=
  "ABCDEFGHIJKLMNOPQRSTUVWXYZabcdefghijklmnopqrstuvwxyz0123456789+/".toList

def digit (n : Nat) : Char :=
  alphabet.getD n '='

def encodeOctets : List UInt8 → List Char
  | [] => []
  | [a] =>
    let n := a.toNat * 16
    [digit (n / 64), digit (n % 64), '=', '=']
  | [a, b] =>
    let n := (a.toNat * 256 + b.toNat) * 4
    [digit (n / 4096), digit (n / 64 % 64), digit (n % 64), '=']
  | a :: b :: c :: rest =>
    let n := a.toNat * 65536 + b.toNat * 256 + c.toNat
    digit (n / 262144) :: digit (n / 4096 % 64) :: digit (n / 64 % 64) :: digit (n % 64) ::
      encodeOctets rest

def encode (b : ByteArray) : String :=
  String.ofList (encodeOctets b.toList)

def value? (c : Char) : Option Nat :=
  if 'A' ≤ c ∧ c ≤ 'Z' then some (c.toNat - 65)
  else if 'a' ≤ c ∧ c ≤ 'z' then some (c.toNat - 71)
  else if '0' ≤ c ∧ c ≤ '9' then some (c.toNat + 4)
  else if c = '+' then some 62
  else if c = '/' then some 63
  else none

def decodeOnto (read : List UInt8) : List Char → Option (List UInt8)
  | [] => some read
  | [a, b, '=', '='] => do
    let n := (← value? a) * 64 + (← value? b)
    guard (n % 16 = 0)
    some ((n / 16).toUInt8 :: read)
  | [a, b, c, '='] => do
    let n := ((← value? a) * 64 + (← value? b)) * 64 + (← value? c)
    guard (n % 4 = 0)
    some ((n / 4 % 256).toUInt8 :: (n / 1024).toUInt8 :: read)
  | a :: b :: c :: d :: rest => do
    let n := (((← value? a) * 64 + (← value? b)) * 64 + (← value? c)) * 64 + (← value? d)
    decodeOnto ((n % 256).toUInt8 :: (n / 256 % 256).toUInt8 :: (n / 65536).toUInt8 :: read) rest
  | _ => none

def decode? (s : String) : Option ByteArray :=
  (decodeOnto [] s.toList).map fun read => ⟨read.reverse.toArray⟩

end Inkpress.Text.Base64
