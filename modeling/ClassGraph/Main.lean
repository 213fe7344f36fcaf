import ClassGraph.Command.Convert
import ClassGraph.Command.Inspect

/-!
The command line. The first argument names the command, the others are its own. The files that a
request mentions are brought into a tree, and what a command changes there is written back.
-/

namespace ClassGraph.Main

open Command

def probe (location : Files.Location) : IO (Option Files.Node) := do
  try
    return some (.file (← IO.FS.readBinFile location.path.text))
  catch
    | .noFileOrDirectory .. => return none
    | .inappropriateType .. => return some .directory
    | e => throw e

/-- Brings in what lies on the way from a location on, part by part, up to what is missing. -/
def bring (files : FileTree) (location : Files.Location) : List String → IO FileTree
  | [] => return files
  | part :: rest => do
    match files.enter location part with
    | .error _ => return files
    | .ok location =>
      match ← probe location with
      | none => return files
      | some node => bring (files.setNode location node) location rest

def gather (paths : List String) : IO FileTree :=
  paths.foldlM (fun files path =>
    match Files.checkPath path with
    | .error _ => return files
    | .ok () =>
      let path := Files.Path.ofText path
      bring files path.start path.parts) .empty

/-- Writes back what has changed, prints what there is to print, and gives the exit code. -/
def finish (before : FileTree) (help : String) (outcome : Outcome) : IO UInt32 := do
  for (location, content) in outcome.files.changedSince before do
    IO.FS.createDirAll location.path.parent.text
    IO.FS.writeBinFile location.path.text content
  IO.print outcome.stdout.toDisplay
  IO.eprint outcome.stderr.toDisplay
  match outcome.ending with
  | .code 2 =>
    IO.eprint help
    return 2
  | .code n => return n.toUInt32
  | .crash c =>
    IO.eprintln c.message.toDisplay
    return 1

partial def readLines (stream : IO.FS.Stream) (text : String) : IO String := do
  let line ← stream.getLine
  if line.isEmpty then return text
  readLines stream (text ++ line)

def convert (args : List String) : IO UInt32 := do
  let request := Convert.Request.ofArguments? args
  let files ← gather ((request.map (·.paths)).getD [])
  let stdin ← if request.any (·.fromStdin) then readLines (← IO.getStdin) "" else pure ""
  finish files Convert.help (Convert.run files args (.ofString stdin))

def inspect (args : List String) : IO UInt32 := do
  let files ← gather (Inspect.readRequest false args).paths
  finish files Inspect.help (Inspect.run files args)

end ClassGraph.Main

def main (args : List String) : IO UInt32 := do
  match args with
  | "convert" :: rest => ClassGraph.Main.convert rest
  | "inspect" :: rest => ClassGraph.Main.inspect rest
  | _ =>
    IO.eprintln "usage: convert … | inspect …"
    return 2
