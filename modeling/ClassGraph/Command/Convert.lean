import ClassGraph.Arguments
import ClassGraph.Builder
import ClassGraph.Command.Outcome
import ClassGraph.Json.Writer
import ClassGraph.Tree.Export

/-!
The command that converts a diagram into a document. The diagram comes from the standard input or
from a file, the document goes to the standard output or into a file.
-/

namespace ClassGraph.Command.Convert

open Arguments

def interface : Interface where
  forms :=
    [helpForm, ⟨["--input", "-i"], .value fun _ => true⟩,
      ⟨["--output", "-o"], .value fun _ => true⟩, ⟨["--stdin"], .flag⟩,
      ⟨["--block"], .value fun s => (Text.readInt? s).isSome⟩]
  takesFile := false

def help : String :=
  "usage: prog [-h] [--input INPUT] [--output OUTPUT] [--stdin] [--block BLOCK]\n\n" ++
  "Convert PlantUML class diagrams to AST JSON\n\n" ++
  "options:\n" ++
  "  -h, --help            show this help message and exit\n" ++
  "  --input INPUT, -i INPUT\n" ++
  "                        Input .puml (or markdown) file\n" ++
  "  --output OUTPUT, -o OUTPUT\n" ++
  "                        Output .ast.json path (default: print tree to stdout)\n" ++
  "  --stdin               Read from stdin\n" ++
  "  --block BLOCK         Index of the PlantUML block to parse in a markdown\n" ++
  "                        input\n"

structure Request where
  input : String
  output : String
  fromStdin : Bool
  block : Option Int
deriving DecidableEq, Repr

/-- The request that the given options make up. A path that is not given is empty; the diagram of a
page is the first one unless another place is given. -/
def requestOf (given : List Given) : Request where
  input := (valueOf? given "--input").getD ""
  output := (valueOf? given "--output").getD ""
  fromStdin := (last? given "--stdin").isSome
  block :=
    match last? given "--block" with
    | none => some 0
    | some block => block.value.bind Text.readInt?

/-- The request that arguments make, unless they ask for help or do not fit. -/
def Request.ofArguments? (args : List String) : Option Request :=
  match read interface args with
  | .given options _ => some (requestOf options)
  | _ => none

def Request.paths (request : Request) : List String :=
  [request.input, request.output].filter fun path => !path.isEmpty

inductive Content where
  | text (t : Text)
  | stop (outcome : Outcome)

/-- Fetches the text of the diagram. The standard input goes before a file. -/
def fetch (files : FileTree) (stdin : Text) (request : Request) : Content :=
  if request.fromStdin then .text (Text.unifyLineEnds stdin)
  else if request.input.isEmpty then .stop (.refused files)
  else
    let path := Files.Path.ofText request.input
    match files.exists? path with
    | .error e => .stop (.crashed files (.file e))
    | .ok false => .stop (.reported files ("Input file not found: " ++ path.text))
    | .ok true =>
      match Source.load files request.input request.block with
      | .ok text => .text text
      | .error (.file e) => .stop (.crashed files (.file e))
      | .error .undecodable => .stop (.crashed files .undecodable)
      | .error .placeMissing => .stop (.crashed files .placeMissing)
      | .error e => .stop (.reported files (e.blockMessage?.getD ""))

/-- Writes the document of a graph into a file. The file is emptied before the document is made, so
that it is left empty where there is none. -/
def save (files : FileTree) (output : String) (g : Graph) : Outcome :=
  let path := Files.Path.ofText output
  match files.save path .empty with
  | (.error e, files) => .crashed files (.file e)
  | (.ok (), emptied) =>
    match g.document with
    | .error e => .reported emptied e.message
    | .ok document =>
      match emptied.write path document.pretty.toUTF8 with
      | .error e => .crashed emptied (.file e)
      | .ok written =>
        .done written ""
          ("[plantuml] " ++ toString g.size ++ " class-like entities written to " ++ output ++ "\n")

def convert (files : FileTree) (request : Request) (text : Text) : Outcome :=
  match parse text with
  | .error e => .reported files e.message
  | .ok g =>
    if request.output.isEmpty then
      match g.document with
      | .error e => .reported files e.message
      | .ok document => .done files (document.pretty ++ "\n") ""
    else save files request.output g

def run (files : FileTree) (args : List String) (stdin : Text) : Outcome :=
  match read interface args with
  | .help => .done files help ""
  | .refused => .refused files
  | .given options _ =>
    let request := requestOf options
    match fetch files stdin request with
    | .stop outcome => outcome
    | .text text => convert files request text

end ClassGraph.Command.Convert
