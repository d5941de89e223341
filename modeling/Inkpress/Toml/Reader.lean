import Inkpress.Toml.Moment
import Inkpress.Toml.Text
import Inkpress.Toml.Tree

namespace Inkpress.Toml

open Text (Reader)

def isScalarChar (c : Char) : Bool :=
  c.isAlphanum || c = '_' || c = '-' || c = '+' || c = '.' || c = ':'

def scalar : Reader Value := fun cs =>
  match moment cs with
  | some (m, rest) => some (.moment m, rest)
  | none => do
    let (token, rest) := Text.Reader.span isScalarChar cs
    let v ← scalar? token
    some (v, rest)

def arrayItems (item : Reader Value) : Nat → Reader (List Value)
  | 0, _ => none
  | bound + 1, cs =>
    match skipLines false cs with
    | ']' :: rest => some ([], rest)
    | cs => do
      let (v, rest) ← item cs
      match skipLines false rest with
      | ',' :: rest =>
        let (vs, rest) ← arrayItems item bound rest
        some (v :: vs, rest)
      | ']' :: rest => some ([v], rest)
      | _ => none

def pair (item : Reader Value) : Reader Statement := fun cs => do
  let (key, rest) ← dottedKey cs
  match rest with
  | '=' :: rest =>
    let (v, rest) ← item (skipSpaces rest)
    some (.pair key v, rest)
  | _ => none

def inlinePairs (item : Reader Value) : Nat → Reader (List Statement)
  | 0, _ => none
  | bound + 1, cs => do
    let (s, rest) ← pair item cs
    match skipSpaces rest with
    | ',' :: rest =>
      let (more, rest) ← inlinePairs item bound rest
      some (s :: more, rest)
    | '\x7d' :: rest => some ([s], rest)
    | _ => none

def inlineTable (item : Reader Value) : Reader Value := fun cs =>
  match skipSpaces cs with
  | '\x7d' :: rest => some (.table [], rest)
  | cs => do
    let (statements, rest) ← inlinePairs item cs.length cs
    let entries ← build? statements
    some (.table entries, rest)

def value : Nat → Reader Value
  | 0, _ => none
  | depth + 1, cs =>
    match cs with
    | '[' :: rest =>
      if depth = 0 then none
      else (arrayItems (value depth) cs.length rest).map fun (vs, rest) => (.array vs, rest)
    | '\x7b' :: rest => if depth = 0 then none else inlineTable (value depth) rest
    | cs =>
      match quote? cs with
      | some q => (string q cs).map fun (s, rest) => (.text s, rest)
      | none => scalar cs

def header : Reader Statement
  | '[' :: '[' :: cs => do
    let (path, rest) ← dottedKey cs
    match rest with
    | ']' :: ']' :: rest => some (.item path, rest)
    | _ => none
  | '[' :: cs => do
    let (path, rest) ← dottedKey cs
    match rest with
    | ']' :: rest => some (.header path, rest)
    | _ => none
  | _ => none

def statement : Reader Statement := fun cs =>
  match cs with
  | '[' :: _ => header cs
  | cs => pair (value maxDepth) cs

def statements : Nat → List Char → Option (List Statement)
  | 0, _ => none
  | bound + 1, cs =>
    match skipLines false cs with
    | [] => some []
    | cs => do
      let (s, rest) ← statement cs
      let rest ← lineEnd? rest
      let more ← statements bound rest
      some (s :: more)

def read? (text : String) : Option (List (String × Value)) :=
  let cs := match text.toList with
    | '\uFEFF' :: rest => rest
    | cs => cs
  statements (cs.length + 1) cs >>= build?

end Inkpress.Toml
