

namespace Inkpress.Command

def programName : String := "blogforge-ingest"

def version : String := "0.3.0"

def versionText : String := programName ++ " " ++ version ++ "\n"

def summaries : List (String × String) :=
  [("ingest", "Ingest a .docx file as a new blog post"),
    ("remove", "Delete a blog post by title"),
    ("init-db", "Create the blog tables if they are missing"),
    ("drop-db", "Drop the blog tables"),
    ("help", "Print this message or the help of the given subcommand(s)")]

def row (width : Nat) (e : String × String) : String :=
  "  " ++ e.1 ++ String.ofList (List.replicate (width - e.1.length) ' ') ++ "  " ++ e.2 ++ "\n"

def columns (es : List (String × String)) : String :=
  let width := es.foldl (fun n e => max n e.1.length) 0
  String.join (es.map (row width))

def configOption (preset : String) : String × String :=
  ("    --config <CONFIG>", "Configuration file to use instead of the layered config directory " ++
    "[env: BLOGFORGE_CONFIG=" ++ preset ++ "]")

def helpOption : String × String := ("-h, --help", "Print help")

def page (about usage : String) (parts : List (String × List (String × String))) : String :=
  about ++ "\n\nUsage: " ++ programName ++ " " ++ usage ++ "\n" ++
    String.join (parts.map fun p => "\n" ++ p.1 ++ ":\n" ++ columns p.2)

def help (preset : String) : Option String → String
  | none => page "Import Word documents into the blog store" "[OPTIONS] <COMMAND>"
      [("Commands", summaries),
        ("Options", [configOption preset, helpOption, ("-V, --version", "Print version")])]
  | some name =>
    let about := (summaries.lookup name).getD ""
    let config := configOption preset
    match name with
    | "ingest" => page about "ingest [OPTIONS] <DOCX>"
        [("Arguments", [("<DOCX>", "Path to the document")]),
          ("Options", [config, ("    --title <TITLE>", "Post title (defaults to the file name)"),
            ("    --author <AUTHOR>", "Post author (defaults to ingestion.default_author)"),
            ("    --images-dir <IMAGES_DIR>", "Keep extracted images in this directory"),
            helpOption])]
    | "remove" => page about "remove [OPTIONS] --title <TITLE>"
        [("Options", [config, ("    --title <TITLE>", ""), helpOption])]
    | "help" => page about "help [COMMAND]..." [("Commands", summaries)]
    | name => page about (name ++ " [OPTIONS]") [("Options", [config, helpOption])]

end Inkpress.Command
