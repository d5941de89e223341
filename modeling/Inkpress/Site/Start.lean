import Inkpress.Startup
import Inkpress.Text.Basic

namespace Inkpress.Site

namespace Endpoint

def isOctet (cs : List Char) : Bool :=
  match Text.Reader.number? 10 cs with
  | some n => n < 256 && (cs.length = 1 || cs.head? ≠ some '0')
  | none => false

def isVersion4 (cs : List Char) : Bool :=
  let parts := Text.split '.' cs
  parts.length = 4 && parts.all isOctet

def isGroup (cs : List Char) : Bool :=
  cs.length ≤ 4 && (Text.Reader.number? 16 cs).isSome

def groups? (cs : List Char) : Option Nat :=
  if cs = [] then some 0
  else
    let parts := Text.split ':' cs
    match parts.reverse with
    | last :: front =>
      if !front.all isGroup then none
      else if isGroup last then some parts.length
      else if isVersion4 last then some (parts.length + 1)
      else none
    | [] => none

def aroundGap? : List Char → Option (List Char × List Char)
  | ':' :: ':' :: cs => some ([], cs)
  | c :: cs => (aroundGap? cs).map fun (a, b) => (c :: a, b)
  | [] => none

def isVersion6 (cs : List Char) : Bool :=
  match aroundGap? cs with
  | none => groups? cs = some 8
  | some (front, back) =>
    match groups? front, groups? back with
    | some a, some b => a + b ≤ 7 && !front.contains '.'
    | _, _ => false

def isScoped (cs : List Char) : Bool :=
  match Text.splitFirst? '%' cs with
  | some (address, zone) =>
    isVersion6 address && (Text.Reader.number? 10 zone).any (· < Nat.pow 2 32)
  | none => isVersion6 cs

def isHost (cs : List Char) : Bool :=
  match cs with
  | '[' :: rest =>
    match rest.reverse with
    | ']' :: inner => isScoped inner.reverse
    | _ => false
  | cs => isVersion4 cs

end Endpoint

def endpoint (s : Settings.Server) : Except Failure String :=
  let text := s.host ++ ":" ++ toString s.port
  if Endpoint.isHost s.host.toList then .ok text else .error (.address text)

/-- Starts the site: its settings and databases and where it listens, and what is in the working
directory then. -/
def start (w : Workspace) (e : Settings.Environment) :
    Except Failure (String × Startup.Connected) × Workspace :=
  match Startup.settings w (Startup.environment w e) none with
  | .error f => (.error f, w)
  | .ok s =>
    match Startup.connect w s.database with
    | (.error f, w) => (.error f, w)
    | (.ok connected, w) => ((endpoint s.server).map fun address => (address, connected), w)

end Inkpress.Site
