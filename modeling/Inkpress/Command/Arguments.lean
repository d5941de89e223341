import Inkpress.Command.Help
import Inkpress.Text.Split

namespace Inkpress

inductive Command
  | ingest (document : String) (title author imagesDir : Option String)
  | remove (title : String)
  | initDb
  | dropDb
  deriving Repr, DecidableEq

namespace Command

structure Invocation where
  config : Option String
  command : Command
  deriving Repr, DecidableEq

inductive Request
  | invoke (i : Invocation)
  | explain (text : String)
  | refuse
  deriving Repr, DecidableEq

structure Grammar where
  options : List String
  paths : List String
  places : Nat

structure Given where
  options : List (String × String)
  words : List String
  escaped : Bool

inductive Stop
  | help
  | wrong

def startsWith (start s : String) : Bool :=
  start.toList.isPrefixOf s.toList

def isValue (w : String) : Bool :=
  w = "-" || !startsWith "-" w

def optionName (w : String) : String × Option String :=
  let cs := w.toList.drop 2
  match Text.splitFirst? '=' cs with
  | some (name, value) => (String.ofList name, some (String.ofList value))
  | none => (String.ofList cs, none)

namespace Given

def none : Given := ⟨[], [], false⟩

def option? (g : Given) (name : String) : Option String :=
  g.options.lookup name

def addOption (grammar : Grammar) (g : Given) (name value : String) : Except Stop Given :=
  if (g.option? name).isSome || (value = "" && grammar.paths.contains name) then .error .wrong
  else .ok { g with options := (name, value) :: g.options }

def addWord (grammar : Grammar) (g : Given) (w : String) : Except Stop Given :=
  if w = "" || grammar.places ≤ g.words.length then .error .wrong
  else .ok { g with words := w :: g.words }

end Given

def readWords (grammar : Grammar) : Given → List String → Except Stop Given
  | g, [] => .ok g
  | g, w :: ws =>
    if g.escaped || isValue w then
      match g.addWord grammar w with
      | .error e => .error e
      | .ok g => readWords grammar g ws
    else if w = "--" then readWords grammar { g with escaped := true } ws
    else if !startsWith "--" w then .error (if startsWith "-h" w then .help else .wrong)
    else if w = "--help" then .error .help
    else
      let (name, attached) := optionName w
      if !grammar.options.contains name then .error .wrong
      else
        match attached, ws with
        | some value, ws =>
          match g.addOption grammar name value with
          | .error e => .error e
          | .ok g => readWords grammar g ws
        | none, [] => .error .wrong
        | none, value :: ws =>
          if !isValue value then .error .wrong
          else match g.addOption grammar name value with
            | .error e => .error e
            | .ok g => readWords grammar g ws

/-- What a command takes, and what it is once that is given. -/
structure Form where
  grammar : Grammar
  build : Given → Option Command

def form? (name : String) : Option Form :=
  match name with
  | "ingest" => some ⟨⟨["title", "author", "images-dir", "config"], ["images-dir"], 1⟩, fun g =>
      match g.words with
      | [w] => some (.ingest w (g.option? "title") (g.option? "author") (g.option? "images-dir"))
      | _ => none⟩
  | "remove" => some ⟨⟨["title", "config"], [], 0⟩, fun g => (g.option? "title").map .remove⟩
  | "init-db" => some ⟨⟨["config"], [], 0⟩, fun _ => some .initDb⟩
  | "drop-db" => some ⟨⟨["config"], [], 0⟩, fun _ => some .dropDb⟩
  | _ => none

def readHelp (preset : String) : List String → Request
  | [] => .explain (help preset none)
  | [name] =>
    if (summaries.lookup name).isSome then .explain (help preset (some name)) else .refuse
  | _ => .refuse

def readCommand (preset : Option String) (config : Option String) (name : String)
    (ws : List String) : Request :=
  if name = "help" then readHelp (preset.getD "") ws
  else
    match form? name with
    | none => .refuse
    | some form =>
      match readWords form.grammar .none ws with
      | .error .help => .explain (help (preset.getD "") (some name))
      | .error .wrong => .refuse
      | .ok g =>
        match form.build g with
        | none => .refuse
        | some command => .invoke ⟨((g.option? "config").or config).or preset, command⟩

/-- Reads a command line up to the command's name. A preset settings file counts if none is given.
-/
def readLine (preset : Option String) : Option String → List String → Request
  | _, [] => .refuse
  | config, w :: ws =>
    if isValue w then readCommand preset config w ws
    else if w = "--" then .refuse
    else if startsWith "--" w then
      if w = "--help" then .explain (help (preset.getD "") none)
      else if w = "--version" then .explain versionText
      else
        let (name, attached) := optionName w
        if name ≠ "config" || config.isSome then .refuse
        else
          match attached, ws with
          | some value, ws => readLine preset (some value) ws
          | none, [] => .refuse
          | none, value :: ws =>
            if isValue value then readLine preset (some value) ws else .refuse
    else if startsWith "-h" w then .explain (help (preset.getD "") none)
    else if startsWith "-V" w then .explain versionText
    else .refuse

def read (preset : Option String) (args : List String) : Request :=
  readLine preset none args

end Command

end Inkpress
