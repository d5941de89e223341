import Inkpress.Site.Authority
import Inkpress.Text.Basic
import Inkpress.Text.Utf8

namespace Inkpress.Site

structure Address where
  path : List Char
  query : Option (List Char)
  deriving Repr, DecidableEq

namespace Address

def isPathChar (c : Char) : Bool :=
  let n := c.toNat
  n = 0x21 || n = 0x22 || (0x24 ≤ n && n ≤ 0x3B) || n = 0x3D || (0x40 ≤ n && n ≤ 0x5F)
    || 0x61 ≤ n

def isQueryChar (c : Char) : Bool :=
  let n := c.toNat
  n = 0x21 || (0x24 ≤ n && n ≤ 0x3B) || n = 0x3D || 0x3F ≤ n

def ofPath? (cs : List Char) : Option Address :=
  let path := cs.takeWhile (· ≠ '?')
  let query := match cs.dropWhile (· ≠ '?') with
    | _ :: q => some q
    | [] => none
  if path.all isPathChar && (query.getD []).all isQueryChar then some ⟨path, query⟩ else none

def maxSize : Nat := 65534

/-- Reads a target: a path, an absolute address, whose path is at least a slash, a host alone, or an
asterisk. -/
def ofText? (s : String) : Option Address :=
  let cs := s.toList.takeWhile (· ≠ '#')
  if maxSize < s.utf8ByteSize then none
  else if cs.head? = some '/' then ofPath? cs
  else if s = "*" then some ⟨['*'], none⟩
  else
    match Authority.afterScheme s.toList with
    | some none => none
    | some (some rest) => do
      let (host, rest) ← Authority.divide? rest
      let a ← ofPath? (rest.takeWhile (· ≠ '#'))
      if host = [] then none else some (if a.path = [] then { a with path := ['/'] } else a)
    | none => do
      let (host, rest) ← Authority.divide? s.toList
      if host = [] || rest ≠ [] then none else some ⟨[], none⟩

def decodeOctets : List UInt8 → List UInt8
  | 0x25 :: a :: b :: rest =>
    match Text.Reader.digit? (Char.ofNat a.toNat), Text.Reader.digit? (Char.ofNat b.toNat) with
    | some h, some l => (16 * h + l).toUInt8 :: decodeOctets rest
    | _, _ => 0x25 :: decodeOctets (a :: b :: rest)
  | c :: rest => c :: decodeOctets rest
  | [] => []
  termination_by cs => cs.length

def decode? (segment : List Char) : Option String :=
  Text.Utf8.decode? ⟨(decodeOctets (String.ofList segment).toUTF8.toList).toArray⟩

end Address

end Inkpress.Site
