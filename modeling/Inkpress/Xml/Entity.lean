import Inkpress.Text.Basic

namespace Inkpress.Xml

def digitsFrom? (base : Nat) (start : Nat) (cs : List Char) : Option Nat :=
  cs.foldl (fun acc c => do
    let n ← acc
    let d ← Text.Reader.digit? c
    if d < base then some (n * base + d) else none) (some start)

def charOfNumber? (n : Nat) : Option Char :=
  if h : n.isValidChar then if n = 0 then none else some (Char.ofNatAux n h) else none

/-- What a reference stands for, given what is written between `&` and `;`. -/
def resolve? : List Char → Option Char
  | ['l', 't'] => some '<'
  | ['g', 't'] => some '>'
  | ['a', 'm', 'p'] => some '&'
  | ['q', 'u', 'o', 't'] => some '"'
  | ['a', 'p', 'o', 's'] => some '\''
  | '#' :: 'x' :: d :: ds => digitsFrom? 16 0 (d :: ds) >>= charOfNumber?
  | '#' :: d :: ds => digitsFrom? 10 0 (d :: ds) >>= charOfNumber?
  | _ => none

/-- Where a reader of character data stands: the open reference, if any, is kept reversed. -/
structure Decoding where
  reference : Option (List Char)
  read : List Char

namespace Decoding

def start : Decoding := ⟨none, []⟩

def step (d : Decoding) (c : Char) : Option Decoding :=
  match d.reference with
  | none => if c = '&' then some ⟨some [], d.read⟩ else some ⟨none, c :: d.read⟩
  | some name =>
    if c = ';' then (resolve? name.reverse).map fun r => ⟨none, r :: d.read⟩
    else if c = '&' then none
    else some ⟨some (c :: name), d.read⟩

def run (d : Decoding) (cs : List Char) : Option Decoding :=
  cs.foldlM step d

def finish (d : Decoding) : Option (List Char) :=
  match d.reference with
  | none => some d.read.reverse
  | some _ => none

end Decoding

def unescape (cs : List Char) : Option (List Char) :=
  (Decoding.start.run cs).bind Decoding.finish

def escapeChar : Char → List Char
  | '&' => ['&', 'a', 'm', 'p', ';']
  | '<' => ['&', 'l', 't', ';']
  | '>' => ['&', 'g', 't', ';']
  | '"' => ['&', 'q', 'u', 'o', 't', ';']
  | c => [c]

def escape (cs : List Char) : List Char :=
  cs.flatMap escapeChar

end Inkpress.Xml
