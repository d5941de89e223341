import Inkpress.Toml.Value

namespace Inkpress.Toml

/-- How a table was made. -/
inductive Making
  | headed
  | dotted
  | passing
  deriving DecidableEq

inductive Node
  | value (v : Value)
  | table (making : Making) (entries : List (String × Node))
  | tables (latest : List (String × Node)) (earlier : List (List (String × Node)))

abbrev Entries := List (String × Node)

namespace Entries

def alter (key : String) (f : Option Node → Option Node) : Entries → Option Entries
  | [] => (f none).map fun n => [(key, n)]
  | e :: es =>
    if e.1 = key then (f (some e.2)).map fun n => (key, n) :: es
    else (alter key f es).map (e :: ·)

/-- Changes the table at the end of a path, of which missing tables are made in passing. -/
def under (f : Entries → Option Entries) : List String → Entries → Option Entries
  | [], es => f es
  | k :: ks, es =>
    es.alter k fun
      | none => (under f ks []).map (.table .passing)
      | some (.table making inner) => (under f ks inner).map (.table making)
      | some (.tables latest earlier) => (under f ks latest).map (.tables · earlier)
      | some (.value _) => none

/-- Puts a value under a dotted key. The table that takes it must be open, as the one that the path
begins at is, or made by dotted keys. -/
def put (v : Value) : (isOpen : Bool) → List String → Entries → Option Entries
  | _, [], _ => none
  | isOpen, [k], es =>
    if isOpen then
      es.alter k fun
        | none => some (.value v)
        | some _ => none
    else none
  | _, k :: ks, es =>
    es.alter k fun
      | none => (put v true ks []).map (.table .dotted)
      | some (.table .dotted inner) => (put v true ks inner).map (.table .dotted)
      | some (.table .passing inner) => (put v false ks inner).map (.table .passing)
      | some (.tables latest earlier) => (put v false ks latest).map (.tables · earlier)
      | some (.table .headed _) => none
      | some (.value _) => none

def openTable (k : String) (es : Entries) : Option Entries :=
  es.alter k fun
    | none => some (.table .headed [])
    | some (.table .passing inner) => some (.table .headed inner)
    | some _ => none

def openItem (k : String) (es : Entries) : Option Entries :=
  es.alter k fun
    | none => some (.tables [] [])
    | some (.tables latest earlier) => some (.tables [] (latest :: earlier))
    | some _ => none

end Entries

mutual

def Node.finish : Node → Value
  | .value v => v
  | .table _ es => .table (finishEntries es)
  | .tables latest earlier => .array (finishTables earlier [.table (finishEntries latest)])

def finishEntries : List (String × Node) → List (String × Value)
  | [] => []
  | (k, n) :: es => (k, n.finish) :: finishEntries es

def finishTables : List (List (String × Node)) → List Value → List Value
  | [], done => done
  | es :: rest, done => finishTables rest (.table (finishEntries es) :: done)

end

inductive Statement
  | pair (key : List String) (value : Value)
  | header (path : List String)
  | item (path : List String)

/-- The tree so far, and the path of the table that pairs go to. -/
structure Build where
  root : Entries
  current : List String

def Build.step (b : Build) : Statement → Option Build
  | .pair key v => do
    let root ← b.root.under (Entries.put v true key) b.current
    some { b with root }
  | .header path => do
    let k ← path.getLast?
    let root ← b.root.under (Entries.openTable k) path.dropLast
    some ⟨root, path⟩
  | .item path => do
    let k ← path.getLast?
    let root ← b.root.under (Entries.openItem k) path.dropLast
    some ⟨root, path⟩

def build? (statements : List Statement) : Option (List (String × Value)) :=
  (statements.foldlM Build.step ⟨[], []⟩).map fun b => finishEntries b.root

end Inkpress.Toml
