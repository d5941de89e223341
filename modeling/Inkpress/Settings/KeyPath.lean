import Inkpress.Settings.Value

namespace Inkpress.Settings

inductive Step
  | key (name : String)
  | place (n : Int)
  deriving Repr, DecidableEq

namespace KeyPath

def isKeyChar (c : Char) : Bool :=
  c.isAlphanum || c = ' ' || c = '_' || c = '-'

def key : Text.Reader Step := fun cs =>
  match Text.Reader.span isKeyChar cs with
  | ([], _) => none
  | (k, rest) => some (.key (String.ofList k), rest)

def isSpace (c : Char) : Bool :=
  c = ' ' || c = '\t'

def place? (cs : List Char) : Option Int :=
  let inner := ((cs.dropWhile isSpace).reverse.dropWhile isSpace).reverse
  if inner.head? = some '+' then none else Text.Numeral.signed? 64 inner

def step : Text.Reader Step
  | '.' :: cs => key cs
  | '[' :: cs => do
    let (inner, rest) ← Text.splitFirst? ']' cs
    let n ← place? inner
    some (.place n, rest)
  | _ => none

def steps : Nat → List Char → Option (List Step)
  | _, [] => some []
  | 0, _ => none
  | bound + 1, cs => do
    let (s, rest) ← step cs
    let more ← steps bound rest
    some (s :: more)

def read? (cs : List Char) : Option (List Step) := do
  let (s, rest) ← key cs
  let more ← steps rest.length rest
  some (s :: more)

/-- The path that a name writes. A name that writes none is a key as a whole. -/
def ofName (name : String) : List Step :=
  (read? name.toList).getD [.key name]

end KeyPath

namespace Value

def atKey (key : String) (f : Option Value → Value) : Value → Value
  | sect es => sect (Assoc.alter (Text.lowerAscii key) f es)
  | _ => sect (Assoc.alter (Text.lowerAscii key) f [])

def atPlace (n : Int) (f : Value → Value) (old : Value) : Value :=
  let items := match old with
    | list items => items
    | _ => []
  let i := if 0 ≤ n then n else items.length + n
  if i < 0 then list items
  else
    let items := items ++ List.replicate (i.toNat + 1 - items.length) null
    list (items.modify i.toNat f)

mutual

/-- What is under a key once a value has been written there. The entries of a section go to what is
there one by one, anything else takes its place. -/
def merge : Value → Option Value → Value
  | .sect entries, old => mergeEntries entries (old.getD .empty)
  | v, _ => v

def mergeEntries : List (String × Value) → Value → Value
  | [], old => old
  | (k, v) :: es, old => mergeEntries es (old.atKey k fun o => merge v o)

end

def write (v : Value) : List Step → Value → Value
  | [], old => old
  | [.key k], old => old.atKey k v.merge
  | [.place n], old => old.atPlace n fun _ => v
  | .key k :: rest, old => old.atKey k fun o => write v rest (o.getD null)
  | .place n :: rest, old => old.atPlace n fun o => write v rest o

end Value

end Inkpress.Settings
