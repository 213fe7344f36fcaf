import ClassGraph.Archive.Clock
import ClassGraph.Error
import ClassGraph.Files.Tree
import ClassGraph.Json.Reader
import ClassGraph.Json.Writer
import ClassGraph.Tree.Export

/-!
The archive of diagrams: a map from names to entries, in the order in which the names were first
put. Every change is written to the state file at once. A state file may hold any JSON value; it is
kept as it is, and the operations that need a map fail on another value.
-/

namespace ClassGraph

/-- The files, the clock and the log that an archive works with. -/
structure Host where
  files : FileTree
  ticks : Nat
  log : Text

def Host.note (h : Host) (line : Text) : Host := { h with log := h.log ++ line ++ "\n" }

/-- Why an operation on an archive fails. -/
inductive ArchiveError where
  | file (e : FileError)
  /-- The state file is not UTF-8. -/
  | undecodable
  | numberTooLong
  | notMap
  /-- Something is put into or taken out of a value that is no map. -/
  | notMutable
  | notCountable
  | diagram (e : DiagramError)

structure Archive extends Host where
  path : Files.Path
  diagrams : Json
  version : Nat

namespace Archive

/-- Where the state is kept unless another place is given. -/
def defaultPath : String := "data/diagrams.json"

def ignoring (host : Host) (path : Files.Path) (message : Text) : Host :=
  host.note ("[store] Ignoring unreadable state file " ++ path.text ++ ": " ++ message)

/-- Reads the state file. A file that is missing or unreadable counts as an empty map. -/
def loadState (host : Host) (path : Files.Path) : Except ArchiveError (Json × Host) :=
  match host.files.exists? path with
  | .error e => .error (.file e)
  | .ok false => .ok (.obj [], host)
  | .ok true =>
    match host.files.read path with
    | .error e => .ok (.obj [], ignoring host path (e.message path.text))
    | .ok content =>
      match decodeText content with
      | none => .error .undecodable
      | some text =>
        match Json.read text with
        | .ok state => .ok (state, host)
        | .error .malformed => .ok (.obj [], ignoring host path "<json error>")
        | .error .numberTooLong => .error .numberTooLong

def openAt (host : Host) (path : Files.Path) : Except ArchiveError Archive :=
  match loadState host path with
  | .ok (state, host) => .ok { host with path, diagrams := state, version := 0 }
  | .error e => .error e

def save (a : Archive) : Except ArchiveError Unit × Archive :=
  match a.files.save a.path a.diagrams.pretty.toUTF8 with
  | (.ok (), files) => (.ok (), { a with files })
  | (.error e, files) => (.error (.file e), { a with files })

def commit (a : Archive) (diagrams : Json) : Except ArchiveError Unit × Archive :=
  ({ a with diagrams, version := a.version + 1 } : Archive).save

def countEntities (members : List (Text × Json)) : Except ArchiveError Nat :=
  match members.lookup ("entities" : Text) with
  | none => .ok 0
  | some (.arr items) => .ok items.length
  | some (.obj members) => .ok members.length
  | some (.str t) => .ok t.length
  | some _ => .error .notCountable

def summarize (name : Text) (entry : Json) : Except ArchiveError Json :=
  match entry with
  | .obj members =>
    match countEntities members with
    | .error e => .error e
    | .ok count =>
      .ok (.obj [("name", .str name), ("entity_count", .int count),
        ("updated_at", (members.lookup ("updated_at" : Text)).getD .null)])
  | _ => .error .notMap

/-- The summaries of a list of entries; the first that has none decides. -/
def summarizeAll : List (Text × Json) → Except ArchiveError (List Json)
  | [] => .ok []
  | (name, entry) :: rest =>
    match summarize name entry with
    | .error e => .error e
    | .ok summary =>
      match summarizeAll rest with
      | .error e => .error e
      | .ok summaries => .ok (summary :: summaries)

/-- The summaries of all entries, in order. -/
def list (a : Archive) : Except ArchiveError (List Json) :=
  match a.diagrams with
  | .obj entries => summarizeAll entries
  | _ => .error .notMap

def get? (a : Archive) (name : Text) : Except ArchiveError (Option Json) :=
  match a.diagrams with
  | .obj entries => .ok (entries.lookup name)
  | _ => .error .notMap

/-- The entry of a diagram: its name, its text, its tree and the time it was put. -/
def entry (name source : Text) (tree : List Record) (time : String) : Json :=
  .obj [("name", .str name), ("source", .str source), ("entities", treeToJson tree),
    ("updated_at", .str time)]

/-- Puts a diagram. A name that is present keeps its place. The clock is read once the tree is
made. -/
def put (a : Archive) (name source : Text) (g : Graph) : Except ArchiveError Json × Archive :=
  match g.toTree with
  | .error e => (.error (.diagram e), a)
  | .ok tree =>
    let a := { a with ticks := a.ticks + 1 }
    let added := entry name source tree (timestamp a.ticks)
    match a.diagrams with
    | .obj entries =>
      match a.commit (.obj (Json.setMember name added entries)) with
      | (.ok (), a) => (.ok added, a)
      | (.error e, a) => (.error e, a)
    | _ => (.error .notMutable, a)

/-- Whether a value that is no map holds a name: as an item, or as a part of a text. -/
def mentions (state : Json) (name : Text) : Except ArchiveError Bool :=
  match state with
  | .arr items => .ok (items.any fun item => item.same (.str name))
  | .str t => .ok (Text.occursIn name t)
  | _ => .error .notMutable

/-- Removes an entry; says whether there was one. -/
def remove (a : Archive) (name : Text) : Except ArchiveError Bool × Archive :=
  match a.diagrams with
  | .obj entries =>
    if (entries.lookup name).isSome then
      match a.commit (.obj (entries.filter fun e => e.1 != name)) with
      | (.ok (), a) => (.ok true, a)
      | (.error e, a) => (.error e, a)
    else (.ok false, a)
  | state =>
    match mentions state name with
    | .ok false => (.ok false, a)
    | .ok true => (.error .notMutable, a)
    | .error e => (.error e, a)

def reload (a : Archive) : Except ArchiveError Archive := openAt a.toHost a.path

/-- The text of the state file, if it is a file. -/
def stateText? (a : Archive) : Option String :=
  match a.files.read a.path with
  | .ok content => String.fromUTF8? content
  | .error _ => none

end Archive

end ClassGraph
