import Inkpress.Image.Basic
import Inkpress.Text.Split

namespace Inkpress.Image.Anymap

def isSpace (c : UInt8) : Bool :=
  (9 ≤ c && c ≤ 13) || c = 32

def isLineEnd (c : UInt8) : Bool :=
  c = 10 || c = 13

def dropComments : Bool → List UInt8 → List UInt8
  | _, [] => []
  | true, c :: cs => dropComments (!isLineEnd c) cs
  | false, c :: cs => if c = 35 then dropComments true cs else c :: dropComments false cs

def word (cs : List UInt8) : List UInt8 × List UInt8 :=
  let cs := cs.dropWhile isSpace
  (cs.takeWhile (!isSpace ·), (cs.dropWhile (!isSpace ·)).drop 1)

def number? (w : List UInt8) : Option Nat := do
  let digits := if w.head? = some 43 then w.drop 1 else w
  guard (digits ≠ [] ∧ digits.all fun c => 48 ≤ c ∧ c ≤ 57)
  let n : Nat := digits.foldl (fun n c => 10 * n + (c.toNat - 48)) 0
  guard (n < Nat.pow 2 32)
  some n

def plainSize? (shaded : Bool) (cs : List UInt8) : Option Size := do
  let (w, cs) := word (dropComments false cs)
  let (h, cs) := word cs
  let width ← number? w
  let height ← number? h
  if shaded then
    let brightest ← number? (word cs).1
    guard (brightest ≤ 0xFFFF)
  some ⟨width, height⟩

abbrev Fields := List (String × String)

def numberNames : List String := ["WIDTH", "HEIGHT", "DEPTH", "MAXVAL"]

def kindName : String := "TUPLTYPE"

def wordsOf (line : List Char) : List String :=
  let words := (String.ofList line).splitToList fun c => (9 ≤ c.toNat && c.toNat ≤ 13) || c = ' '
  match words with
  | [] => []
  | name :: values => name :: values.filter (· ≠ "")

def fields? (read : Fields) : List (List Char) → Option Fields
  | [] => none
  | line :: rest =>
    if line.head? = some '#' then fields? read rest
    else match wordsOf line with
      | "ENDHDR" :: _ => some read
      | name :: values =>
        if name = kindName then fields? (read ++ [(name, String.intercalate " " values)]) rest
        else if !numberNames.contains name || (read.lookup name).isSome then none
        else match values with
          | [v] => fields? (read ++ [(name, v)]) rest
          | _ => none
      | [] => none

def kindOf (fields : Fields) : Option String :=
  match fields.filter (·.1 = kindName) with
  | [] => none
  | pieces => some (String.intercalate " " (pieces.map (·.2)))

def soundKind (kind : Option String) (depth brightest : Nat) : Bool :=
  match kind with
  | none => depth = 1 || depth = 3
  | some "BLACKANDWHITE" => depth = 1 && brightest = 1
  | some "GRAYSCALE" => depth = 1 && brightest ≤ 0xFFFF
  | some "RGB" => depth = 3 && brightest ≤ 0xFFFF
  | some _ => false

def namedSize? (cs : List UInt8) : Option Size := do
  guard (cs.head? = some 10)
  let text := (cs.drop 1).map fun c => Char.ofNat c.toNat
  let fields ← fields? [] (Text.split '\n' text)
  let find (name : String) : Option Nat := do
    number? ((← fields.lookup name).toList.map fun c => c.toNat.toUInt8)
  let width ← find "WIDTH"
  let height ← find "HEIGHT"
  let depth ← find "DEPTH"
  let brightest ← find "MAXVAL"
  guard (0 < brightest && soundKind (kindOf fields) depth brightest)
  some ⟨width, height⟩

def size? (b : ByteArray) : Option Size :=
  match b.toList with
  | 0x50 :: kind :: cs =>
    if kind = 0x31 ∨ kind = 0x34 then plainSize? false cs
    else if kind = 0x37 then namedSize? cs
    else plainSize? true cs
  | _ => none

end Inkpress.Image.Anymap
