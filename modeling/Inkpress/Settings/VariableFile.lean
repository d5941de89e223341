import Inkpress.Settings.Layers

namespace Inkpress.Settings.VariableFile

inductive Spot
  | text
  | blank
  | escape
  | weak
  | weakEscape
  | strong
  | strongEscape
  deriving DecidableEq

def Spot.next (s : Spot) (c : Char) : Spot :=
  let start := if c = '\\' then escape else if c = '"' then weak
    else if c = '\x27' then strong else text
  match s with
  | text => if Text.isBlankChar c && c ≠ '\n' && c ≠ '\r' then blank else start
  | blank => start
  | escape => text
  | weak => if c = '\\' then weakEscape else if c = '"' then text else weak
  | weakEscape => weak
  | strong => if c = '\\' then strongEscape else if c = '\x27' then text else strong
  | strongEscape => strong

def follow : Spot → Nat → List Char → Spot × Option Nat
  | s, _, [] => (s, none)
  | s, n, c :: cs => if s = .blank ∧ c = '#' then (s, some n) else follow (s.next c) (n + 1) cs

def physical : List Char → List (List Char)
  | [] => []
  | c :: cs =>
    if c = '\n' then ['\n'] :: physical cs
    else match physical cs with
      | [] => [[c]]
      | l :: ls => (c :: l) :: ls

def withoutBreak (l : List Char) : List Char :=
  match l.reverse with
  | '\n' :: '\r' :: rest => rest.reverse
  | '\n' :: rest => rest.reverse
  | _ => l

/-- Joins lines that an open quote, an escape or a space at the end holds together. Nothing stands
for a line that the text ends in the middle of. -/
def logical (s : Spot) (before : List Char) : List (List Char) → List (Option (List Char))
  | [] => if before = [] then [] else [none]
  | l :: ls =>
    if ((before ++ l).dropWhile Text.isBlankChar).head? = some '#' then
      some [] :: logical .text [] ls
    else
      match follow s 0 l with
      | (_, some n) => some (before ++ l.take n) :: logical .text [] ls
      | (.text, none) => some (withoutBreak (before ++ l)) :: logical .text [] ls
      | (s, none) => logical s (before ++ l) ls

inductive Substitution
  | off
  | plain
  | braced
  deriving DecidableEq

structure Scan where
  out : List Char := []
  name : List Char := []
  substitution : Substitution := .off
  strong : Bool := false
  weak : Bool := false
  escaped : Bool := false
  ending : Bool := false
  finished : Bool := false

namespace Scan

def substitute (e : Environment) (s : Scan) : Scan :=
  { s with out := s.out ++ ((e.find? (String.ofList s.name)).getD "").toList, name := [] }

def put (s : Scan) (c : Char) : Scan :=
  { s with out := s.out ++ [c] }

def inSubstitution (e : Environment) (s : Scan) (c : Char) : Scan :=
  if c.isAlphanum then { s with name := s.name ++ [c] }
  else if s.substitution = .braced then
    if c = '\x7d' then { s.substitute e with substitution := .off }
    else { s with name := s.name ++ [c] }
  else if c = '\x7b' ∧ s.name = [] then { s with substitution := .braced }
  else if c = '$' then s.substitute e
  else { (s.substitute e).put c with substitution := .off }

def step (e : Environment) (s : Scan) (c : Char) : Option Scan :=
  if s.finished then some s
  else if s.ending then
    if c = ' ' ∨ c = '\t' then some s
    else if c = '#' then some { s with finished := true }
    else none
  else if s.escaped then
    if c = '\\' ∨ c = '\x27' ∨ c = '"' ∨ c = '$' ∨ c = ' ' then
      some { s.put c with escaped := false }
    else if c = 'n' then some { s.put '\n' with escaped := false }
    else none
  else if s.strong then some (if c = '\x27' then { s with strong := false } else s.put c)
  else if s.substitution ≠ .off then some (s.inSubstitution e c)
  else if c = '$' then some { s with substitution := .plain }
  else if c = '\\' then some { s with escaped := true }
  else if s.weak then some (if c = '"' then { s with weak := false } else s.put c)
  else if c = '\x27' then some { s with strong := true }
  else if c = '"' then some { s with weak := true }
  else if c = ' ' ∨ c = '\t' then some { s with ending := true }
  else some (s.put c)

end Scan

def value? (e : Environment) (cs : List Char) : Option String := do
  let s ← cs.foldlM (Scan.step e) {}
  if s.substitution = .braced || s.strong || s.weak then none
  else some (String.ofList (s.substitute e).out)

def isNameChar (c : Char) : Bool :=
  c.isAlphanum || c = '_' || c = '.'

def name : Text.Reader String := fun cs =>
  match Text.Reader.span isNameChar cs with
  | ([], _) => none
  | (c :: n, rest) =>
    if c.isDigit || c = '.' then none else some (String.ofList (c :: n), Text.dropBlanks rest)

def assignment (cs : List Char) : Option (String × List Char) := do
  let (n, rest) ← name cs
  match rest with
  | '=' :: rest => some (n, rest)
  | rest =>
    if n = "export" then
      let (n, rest) ← name rest
      match rest with
      | '=' :: rest => some (n, rest)
      | _ => none
    else none

/-- What a line assigns: nothing if it is blank or a comment; the outer nothing is a line that
does not read. -/
def assigned? (e : Environment) (line : List Char) : Option (Option (String × String)) :=
  let cs := Text.dropBlanks (Text.dropBlanks line.reverse).reverse
  if cs = [] ∨ cs.head? = some '#' then some none
  else do
    let (n, rest) ← assignment cs
    let rest := Text.dropBlanks rest
    if rest = [] ∨ rest.head? = some '#' then some (some (n, ""))
    else
      let v ← value? e rest
      some (some (n, v))

def addIfUnset (e : Environment) (v : String × String) : Environment :=
  if (e.find? v.1).isSome then e else e ++ [v]

def addLines (e : Environment) : List (Option (List Char)) → Environment
  | [] => e
  | none :: _ => e
  | some l :: ls =>
    match assigned? e l with
    | none => e
    | some none => addLines e ls
    | some (some v) => addLines (addIfUnset e v) ls

def add (e : Environment) (content : ByteArray) : Environment :=
  match Text.Utf8.decode? (Text.Utf8.dropMark content) with
  | none => e
  | some text => addLines e (logical .text [] (physical text.toList))

end Inkpress.Settings.VariableFile
