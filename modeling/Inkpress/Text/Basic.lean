import Inkpress.Text.Split

namespace Inkpress.Text

/-- The characters with the Unicode property `White_Space`. -/
def isBlankChar (c : Char) : Bool :=
  let n := c.toNat
  (0x09 ≤ n && n ≤ 0x0D) || n = 0x20 || n = 0x85 || n = 0xA0 || n = 0x1680
    || (0x2000 ≤ n && n ≤ 0x200A) || n = 0x2028 || n = 0x2029 || n = 0x202F || n = 0x205F
    || n = 0x3000

def isGap (c : Char) : Bool :=
  c = ' ' || c = '\t' || c = '\r' || c = '\n'

def isBlank (s : String) : Bool :=
  s.toList.all isBlankChar

def dropBlanks (cs : List Char) : List Char :=
  cs.dropWhile isBlankChar

def trim (s : String) : String :=
  String.ofList (dropBlanks (dropBlanks s.toList).reverse).reverse

def lowerAscii (s : String) : String :=
  s.map Char.toLower

theorem lowerAscii_ofList (cs : List Char) :
    lowerAscii (String.ofList cs) = String.ofList (cs.map Char.toLower) := by
  apply String.toList_inj.1
  rw [lowerAscii, String.toList_map, String.toList_ofList, String.toList_ofList]

end Inkpress.Text

namespace Inkpress.Text.Numeral

def natural? (cs : List Char) : Option Nat :=
  if cs ≠ [] ∧ cs.all Char.isDigit then some (cs.foldl (fun n c => 10 * n + (c.toNat - 48)) 0)
  else none

def integer? (cs : List Char) : Option Int :=
  match cs with
  | '+' :: ds => (natural? ds).map fun n => (n : Int)
  | '-' :: ds => (natural? ds).map fun n => -(n : Int)
  | ds => (natural? ds).map fun n => (n : Int)

def signed? (bits : Nat) (cs : List Char) : Option Int := do
  let n ← integer? cs
  if -(Nat.pow 2 (bits - 1) : Int) ≤ n ∧ n < Nat.pow 2 (bits - 1) then some n else none

def unsigned? (bits : Nat) (cs : List Char) : Option Nat := do
  let n ← match cs with
    | '+' :: ds => natural? ds
    | ds => natural? ds
  if n < Nat.pow 2 bits then some n else none

end Inkpress.Text.Numeral

namespace Inkpress.Text

abbrev Reader (α : Type) := List Char → Option (α × List Char)

namespace Reader

def span (isMember : Char → Bool) (cs : List Char) : List Char × List Char :=
  (cs.takeWhile isMember, cs.dropWhile isMember)

def digit? (c : Char) : Option Nat :=
  if '0' ≤ c ∧ c ≤ '9' then some (c.toNat - 48)
  else if 'a' ≤ c ∧ c ≤ 'f' then some (c.toNat - 87)
  else if 'A' ≤ c ∧ c ≤ 'F' then some (c.toNat - 55)
  else none

def number? (base : Nat) : List Char → Option Nat
  | [] => none
  | cs => cs.foldlM (fun n c => do
      let d ← digit? c
      if d < base then some (base * n + d) else none) 0

def digits (base count : Nat) : Reader Nat := fun cs => do
  let taken := cs.take count
  if taken.length = count then
    let n ← number? base taken
    some (n, cs.drop count)
  else none

def isScalar (n : Nat) : Bool :=
  n < 0xD800 || (0xE000 ≤ n && n < 0x110000)

end Reader

end Inkpress.Text
