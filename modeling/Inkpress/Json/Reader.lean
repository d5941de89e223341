import Inkpress.Json.Basic
import Inkpress.Text.Basic

namespace Inkpress.Json

open Text (Reader)

def skipGaps (cs : List Char) : List Char :=
  cs.dropWhile Text.isGap

def escape? (c : Char) : Option Char :=
  match c with
  | '"' => some '"'
  | '\\' => some '\\'
  | '/' => some '/'
  | 'b' => some '\x08'
  | 'f' => some '\x0c'
  | 'n' => some '\n'
  | 'r' => some '\r'
  | 't' => some '\t'
  | _ => none

def escapedUnit : Reader Char := fun cs => do
  let (high, rest) ← Text.Reader.digits 16 4 cs
  if Text.Reader.isScalar high then some (Char.ofNat high, rest)
  else if 0xDC00 ≤ high then none
  else
    match rest with
    | '\\' :: 'u' :: rest =>
      let (low, rest) ← Text.Reader.digits 16 4 rest
      if 0xDC00 ≤ low ∧ low < 0xE000 then
        some (Char.ofNat (0x10000 + (high - 0xD800) * 0x400 + (low - 0xDC00)), rest)
      else none
    | _ => none

def characters : Nat → Reader (List Char)
  | 0, _ => none
  | bound + 1, cs =>
    match cs with
    | [] => none
    | '"' :: rest => some ([], rest)
    | '\\' :: 'u' :: rest => do
      let (c, rest) ← escapedUnit rest
      let (more, rest) ← characters bound rest
      some (c :: more, rest)
    | '\\' :: e :: rest => do
      let c ← escape? e
      let (more, rest) ← characters bound rest
      some (c :: more, rest)
    | c :: rest =>
      if c.toNat < 32 ∨ c = '\\' then none
      else do
        let (more, rest) ← characters bound rest
        some (c :: more, rest)

def string : Reader String := fun cs => do
  let (s, rest) ← characters (cs.length + 1) cs
  some (String.ofList s, rest)

def someDigits : Reader (List Char) := fun cs =>
  match Text.Reader.span Char.isDigit cs with
  | ([], _) => none
  | (ds, rest) => some (ds, rest)

def whole : Reader (List Char) := fun cs => do
  let (ds, rest) ← someDigits cs
  if ds.head? = some '0' ∧ ds.length ≠ 1 then none else some (ds, rest)

def fraction : Reader (List Char)
  | '.' :: cs => do
    let (ds, rest) ← someDigits cs
    some ('.' :: ds, rest)
  | cs => some ([], cs)

def power : Reader (List Char) := fun cs =>
  match cs with
  | c :: rest =>
    if c = 'e' ∨ c = 'E' then
      match rest with
      | s :: rest' =>
        if s = '+' ∨ s = '-' then do
          let (ds, rest) ← someDigits rest'
          some ('e' :: s :: ds, rest)
        else do
          let (ds, rest) ← someDigits rest
          some ('e' :: ds, rest)
      | [] => none
    else some ([], cs)
  | [] => some ([], [])

def unsignedNumber : Reader (List Char) := fun cs => do
  let (n, rest) ← whole cs
  let (f, rest) ← fraction rest
  let (p, rest) ← power rest
  some (n ++ f ++ p, rest)

def numeral : Reader Json
  | '-' :: cs => do
    let (n, rest) ← unsignedNumber cs
    some (.number (String.ofList ('-' :: n)), rest)
  | cs => do
    let (n, rest) ← unsignedNumber cs
    some (.number (String.ofList n), rest)

def items {α : Type} (close : Char) (item : Reader α) : Nat → Reader (List α)
  | 0, _ => none
  | bound + 1, cs => do
    let (a, rest) ← item cs
    match skipGaps rest with
    | ',' :: rest =>
      let (more, rest) ← items close item bound rest
      some (a :: more, rest)
    | c :: rest => if c = close then some ([a], rest) else none
    | [] => none

def list {α : Type} (close : Char) (item : Reader α) : Reader (List α) := fun cs =>
  match skipGaps cs with
  | [] => none
  | c :: rest => if c = close then some ([], rest) else items close item cs.length cs

def member (value : Reader Json) : Reader (String × Json) := fun cs =>
  match skipGaps cs with
  | '"' :: rest => do
    let (name, rest) ← string rest
    match skipGaps rest with
    | ':' :: rest =>
      let (j, rest) ← value rest
      some ((name, j), rest)
    | _ => none
  | _ => none

def word (w : String) (j : Json) : Reader Json := fun cs =>
  (Text.after? w.toList cs).map fun rest => (j, rest)

def value : Nat → Reader Json
  | 0, _ => none
  | depth + 1, cs =>
    match skipGaps cs with
    | '"' :: rest => do
      let (s, rest) ← string rest
      some (.text s, rest)
    | '[' :: rest =>
      if depth = 0 then none
      else (list ']' (value depth) rest).map fun (js, rest) => (.array js, rest)
    | '\x7b' :: rest =>
      if depth = 0 then none
      else (list '\x7d' (member (value depth)) rest).map fun (ms, rest) => (.object ms, rest)
    | 'n' :: rest => word "ull" .null rest
    | 't' :: rest => word "rue" (.bool true) rest
    | 'f' :: rest => word "alse" (.bool false) rest
    | cs => numeral cs

/-- Reads a text that is one value; nesting ends before the 128th level. -/
def read? (s : String) : Option Json := do
  let (j, rest) ← value 128 s.toList
  if skipGaps rest = [] then some j else none

end Inkpress.Json
