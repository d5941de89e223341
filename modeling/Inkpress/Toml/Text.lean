import Inkpress.Text.Basic

namespace Inkpress.Toml

open Text (Reader)

inductive Quote
  | double
  | single
  deriving DecidableEq

def Quote.char : Quote → Char
  | double => '"'
  | single => '\x27'

def isPlain (c : Char) : Bool :=
  c = '\t' || (32 ≤ c.toNat && c.toNat ≠ 127)

def isSpace (c : Char) : Bool :=
  c = ' ' || c = '\t'

def skipSpaces (cs : List Char) : List Char :=
  cs.dropWhile isSpace

def lineBreak? : List Char → Option (List Char)
  | '\n' :: rest => some rest
  | '\r' :: '\n' :: rest => some rest
  | _ => none

def skipBreaks : List Char → List Char
  | ' ' :: rest => skipBreaks rest
  | '\t' :: rest => skipBreaks rest
  | '\n' :: rest => skipBreaks rest
  | '\r' :: '\n' :: rest => skipBreaks rest
  | cs => cs

/-- Skips spaces, ends of lines and comments. A character that no comment may hold is not skipped.
-/
def skipLines (inComment : Bool) : List Char → List Char
  | [] => []
  | '\n' :: rest => skipLines false rest
  | '\r' :: '\n' :: rest => skipLines false rest
  | c :: rest =>
    if inComment then (if isPlain c then skipLines true rest else c :: rest)
    else if isSpace c then skipLines false rest
    else if c = '#' then skipLines true rest
    else c :: rest

def lineEnd? (cs : List Char) : Option (List Char) :=
  match skipSpaces cs with
  | '#' :: rest =>
    match rest.dropWhile isPlain with
    | [] => some []
    | rest => lineBreak? rest
  | [] => some []
  | rest => lineBreak? rest

def numbered (count : Nat) : Reader Char := fun cs => do
  let (n, rest) ← Text.Reader.digits 16 count cs
  if Text.Reader.isScalar n then some (Char.ofNat n, rest) else none

def escaped : Reader Char
  | 'b' :: rest => some ('\x08', rest)
  | 't' :: rest => some ('\t', rest)
  | 'n' :: rest => some ('\n', rest)
  | 'f' :: rest => some ('\x0c', rest)
  | 'r' :: rest => some ('\r', rest)
  | '"' :: rest => some ('"', rest)
  | '\\' :: rest => some ('\\', rest)
  | 'u' :: rest => numbered 4 rest
  | 'U' :: rest => numbered 8 rest
  | _ => none

def singleLine (q : Quote) : Nat → Reader (List Char)
  | 0, _ => none
  | bound + 1, cs =>
    match cs with
    | [] => none
    | c :: rest =>
      if c = q.char then some ([], rest)
      else if q = .double ∧ c = '\\' then do
        let (e, rest) ← escaped rest
        let (more, rest) ← singleLine q bound rest
        some (e :: more, rest)
      else if isPlain c then do
        let (more, rest) ← singleLine q bound rest
        some (c :: more, rest)
      else none

def continued? (cs : List Char) : Option (List Char) :=
  (lineBreak? (skipSpaces cs)).map skipBreaks

/-- Takes a string on several lines and the three quotes after it. Of five quotes the first two are
still text. -/
def severalLines (q : Quote) : Nat → Reader (List Char)
  | 0, _ => none
  | bound + 1, cs =>
    let quotes := (cs.takeWhile (· = q.char)).length
    if 3 ≤ quotes then
      let inside := min (quotes - 3) 2
      some (List.replicate inside q.char, cs.drop (inside + 3))
    else
      match lineBreak? cs with
      | some rest => do
        let (more, rest) ← severalLines q bound rest
        some ('\n' :: more, rest)
      | none =>
        match cs with
        | [] => none
        | c :: rest =>
          if q = .double ∧ c = '\\' then
            match continued? rest with
            | some rest => severalLines q bound rest
            | none => do
              let (e, rest) ← escaped rest
              let (more, rest) ← severalLines q bound rest
              some (e :: more, rest)
          else if isPlain c then do
            let (more, rest) ← severalLines q bound rest
            some (c :: more, rest)
          else none

def quote? : List Char → Option Quote
  | '"' :: _ => some .double
  | '\x27' :: _ => some .single
  | _ => none

def shortString (q : Quote) : Reader String := fun cs => do
  let (s, rest) ← singleLine q cs.length (cs.drop 1)
  some (String.ofList s, rest)

def string (q : Quote) : Reader String := fun cs =>
  match Text.after? [q.char, q.char, q.char] cs with
  | some rest => do
    let (s, rest) ← severalLines q cs.length ((lineBreak? rest).getD rest)
    some (String.ofList s, rest)
  | none => shortString q cs

def isBare (c : Char) : Bool :=
  c.isAlphanum || c = '_' || c = '-'

def key : Reader String := fun cs =>
  match quote? cs with
  | some q => shortString q cs
  | none =>
    match Text.Reader.span isBare cs with
    | ([], _) => none
    | (k, rest) => some (String.ofList k, rest)

def dottedKeys : Nat → Reader (List String)
  | 0, _ => none
  | bound + 1, cs => do
    let (k, rest) ← key (skipSpaces cs)
    match skipSpaces rest with
    | '.' :: rest =>
      let (ks, rest) ← dottedKeys bound rest
      some (k :: ks, rest)
    | rest => some ([k], rest)

def maxDepth : Nat := 80

def dottedKey : Reader (List String) := fun cs => do
  let (ks, rest) ← dottedKeys cs.length cs
  if ks.length < maxDepth then some (ks, rest) else none

end Inkpress.Toml
