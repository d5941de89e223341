import Inkpress.Site.Address

namespace Inkpress.Store

inductive Location
  | memory
  | file (path : String) (create readOnly : Bool)
  deriving Repr, DecidableEq

namespace Location

def body? (url : List Char) : Option (List Char) :=
  (Text.after? "sqlite://".toList url).or (Text.after? "sqlite:".toList url)

def forReading : Location → Location
  | memory => memory
  | file path create _ => file path create true

def parameter (l : Location) (key value : List Char) : Option Location :=
  let isOneOf (vs : List String) := vs.any (·.toList = value)
  if key = "mode".toList then
    if value = "memory".toList then some memory
    else if value = "rwc".toList then
      match l with
      | memory => some memory
      | file path _ readOnly => some (file path true readOnly)
    else if value = "ro".toList then some l.forReading
    else if value = "rw".toList then some l
    else none
  else if key = "cache".toList then if isOneOf ["private", "shared"] then some l else none
  else if key = "immutable".toList then
    if isOneOf ["true", "1"] then some l.forReading
    else if isOneOf ["false", "0"] then some l
    else none
  else if key = "vfs".toList then some l
  else none

def ofUrl? (url : String) : Option Location := do
  let body ← body? url.toList
  let (name, parameters) := match Text.splitFirst? '?' body with
    | some (name, ps) => (name, (Text.split '&' ps).filter (· ≠ []))
    | none => (body, [])
  let start ← if name = ":memory:".toList then some memory
    else (Site.Address.decode? name).map fun path => file path false false
  parameters.foldlM (fun l p =>
    match Text.splitFirst? '=' p with
    | some (key, value) => parameter l key value
    | none => parameter l p []) start

def directoryOf (path : String) : String :=
  match Text.splitLast? '/' path.toList with
  | some (dir, _) => String.ofList dir
  | none => ""

def opens (isFile isDirectory : String → Bool) : Location → Bool
  | memory => true
  | file path create readOnly =>
    isFile path || (create && !readOnly && isDirectory (directoryOf path) && !isDirectory path)

end Location

end Inkpress.Store
