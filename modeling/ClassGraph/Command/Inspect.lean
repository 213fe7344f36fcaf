import ClassGraph.Arguments
import ClassGraph.Command.Outcome
import ClassGraph.Json.Reader
import ClassGraph.Json.Writer
import ClassGraph.Table
import ClassGraph.Tree.Export

/-! The command that shows a stored document, as a document again or as a table. -/

namespace ClassGraph.Command.Inspect

open Arguments

def help : String :=
  "usage: prog [-h] \x7bshow,table\x7d ...\n\n" ++
  "Class diagram AST utilities\n\n" ++
  "positional arguments:\n" ++
  "  \x7bshow,table\x7d\n" ++
  "    show        Pretty-print an .ast.json file\n" ++
  "    table       Generate a markdown table from .ast.json\n\n" ++
  "options:\n" ++
  "  -h, --help    show this help message and exit\n"

def showHelp : String :=
  "usage: prog show [-h] file\n\n" ++
  "positional arguments:\n" ++
  "  file        Path to .ast.json\n\n" ++
  "options:\n" ++
  "  -h, --help  show this help message and exit\n"

def tableHelp : String :=
  "usage: prog table [-h] [--name NAME] file\n\n" ++
  "positional arguments:\n" ++
  "  file         Path to .ast.json\n\n" ++
  "options:\n" ++
  "  -h, --help   show this help message and exit\n" ++
  "  --name NAME  Diagram source name for heading\n"

def showInterface : Interface := ⟨[helpForm], true⟩

def tableInterface : Interface := ⟨[helpForm, ⟨["--name"], .value fun _ => true⟩], true⟩

inductive View where
  | document
  | table (title : String)
deriving DecidableEq, Repr

inductive Request where
  | help (text : String)
  | refused
  | view (file : String) (view : View)
deriving DecidableEq, Repr

/-- The title of a table: the one given, or the name of the file without its ending. -/
def titleOf (given : List Given) (file : String) : String :=
  let title := (valueOf? given "--name").getD ""
  if title.isEmpty then (Files.Path.ofText file).stem else title

/-- The request that the arguments behind the name of a view make up. -/
def requestFor (name : String) (args : List String) : Request :=
  if name = "show" then
    match read showInterface args with
    | .help => .help showHelp
    | .given _ (some file) => .view file .document
    | _ => .refused
  else if name = "table" then
    match read tableInterface args with
    | .help => .help tableHelp
    | .given options (some file) => .view file (.table (titleOf options file))
    | _ => .refused
  else .refused

def Request.paths : Request → List String
  | view file _ => [file]
  | _ => []

/-- What arguments in front of the name of a view allow: with a surplus one, only help is given. -/
def Request.restrict (request : Request) (surplus : Bool) : Request :=
  match request with
  | help text => help text
  | request => if surplus then refused else request

def readRequest (surplus : Bool) : List String → Request
  | [] => if surplus then .refused else .help help
  | arg :: rest =>
    if arg = "--" then .refused
    else
      match understand [helpForm] arg with
      | none => .refused
      | some .separator => .refused
      | some .unknown => readRequest true rest
      | some (.plain name) => (requestFor name rest).restrict surplus
      | some (.option _ attached) =>
        if givesHelp [helpForm] false attached then .help help else .refused

/-- Reads the graph of a document file. A file that is missing or holds no document is reported. -/
def loadGraph (files : FileTree) (file : String) : Except Outcome Graph :=
  let reported := fun (message : Text) =>
    Outcome.reported files ("Cannot load " ++ file ++ ": " ++ message)
  match files.readAsWritten file with
  | .error .zeroInPath => .error (.crashed files (.file .zeroInPath))
  | .error e => .error (reported (e.message file))
  | .ok content =>
    match decodeText content with
    | none => .error (.crashed files .undecodable)
    | some text =>
      match Json.read text with
      | .error .malformed => .error (reported "<json error>")
      | .error .numberTooLong => .error (.crashed files .numberTooLong)
      | .ok document =>
        match Graph.ofDocument document with
        | .error .notObject => .error (.crashed files .documentNotObject)
        | .error (.diagram e) => .error (reported e.message)
        | .ok g => .ok g

def present (files : FileTree) (g : Graph) : View → Outcome
  | .document =>
    match g.document with
    | .error e => .crashed files (.diagram e)
    | .ok document => .done files (document.pretty ++ "\n") ""
  | .table title => .done files (Table.render g title ++ "\n") ""

def run (files : FileTree) (args : List String) : Outcome :=
  match readRequest false args with
  | .help text => .done files text ""
  | .refused => .refused files
  | .view file view =>
    match loadGraph files file with
    | .error outcome => outcome
    | .ok g => present files g view

end ClassGraph.Command.Inspect
