import Inkpress.Text.Basic

namespace Inkpress.Site.Authority

def isEnd (c : Char) : Bool :=
  c = '/' || c = '?' || c = '#'

def isOrdinary (c : Char) : Bool :=
  c.isAlphanum || "!$&'()*+,-.;=_~".toList.contains c

/-- What matters of the characters so far. Colons and percent signs count since the last user or
closing bracket. -/
structure Look where
  colons : Nat := 0
  opened : Bool := false
  closed : Bool := false
  percent : Bool := false
  atUser : Bool := false

def Look.step (l : Look) (c : Char) : Option Look :=
  let l := { l with atUser := false }
  if c = ':' then (if 8 ≤ l.colons then none else some { l with colons := l.colons + 1 })
  else if c = '[' then (if l.percent || l.opened then none else some { l with opened := true })
  else if c = ']' then
    if !l.opened || l.closed then none
    else some { l with closed := true, colons := 0, percent := false }
  else if c = '@' then some { l with colons := 0, percent := false, atUser := true }
  else if c = '%' then some { l with percent := true }
  else if isOrdinary c then some l
  else none

def Look.isDone (l : Look) : Bool :=
  l.opened = l.closed && l.colons ≤ 1 && !l.percent && !l.atUser

def divide? (cs : List Char) : Option (List Char × List Char) := do
  let front := cs.takeWhile fun c => !isEnd c
  let l ← front.foldlM Look.step {}
  if l.isDone then some (front, cs.dropWhile fun c => !isEnd c) else none

def isSchemeChar (c : Char) : Bool :=
  c.isAlphanum || c = '+' || c = '-' || c = '.'

def maxScheme : Nat := 64

def afterScheme (cs : List Char) : Option (Option (List Char)) :=
  match cs.takeWhile isSchemeChar, cs.dropWhile isSchemeChar with
  | scheme, ':' :: '/' :: '/' :: rest =>
    some (if scheme.length ≤ maxScheme then some rest else none)
  | _, _ => none

end Inkpress.Site.Authority
