import ClassGraph.Files.Path
import ClassGraph.Text.Lines
import ClassGraph.Text.Quoted

/-!
A tree of files as a value. Paths lead to locations, which are counted from the working directory or
from the root. The working directory, the directories above it, the root and the parts of the system
below the root are always there; anything else is there once it has been put into the tree.
-/

namespace ClassGraph

/-- Why a file cannot be read or written. -/
inductive FileError where
  | notFound
  | exists
  | notDirectory
  | isDirectory
  | nameTooLong
  /-- The path holds the character with number zero, which ends a path for the system. -/
  | zeroInPath
deriving DecidableEq, Repr

/-- The wording of an error, with its number if it has one. -/
def FileError.wording : FileError → String
  | .notFound => "[Errno 2] No such file or directory"
  | .exists => "[Errno 17] File exists"
  | .notDirectory => "[Errno 20] Not a directory"
  | .isDirectory => "[Errno 21] Is a directory"
  | .nameTooLong => "[Errno 36] File name too long"
  | .zeroInPath => "embedded null byte"

def FileError.message (e : FileError) (path : String) : String :=
  e.wording ++ ": " ++ Text.quoted path

namespace Files

/-- Contents are compared byte by byte. -/
local instance (priority := high) contentDecidableEq : DecidableEq ByteArray := ByteArray.decEq

inductive Node where
  | file (content : ByteArray)
  | directory
  /-- It reads as empty and keeps nothing that is written to it. -/
  | nullDevice
deriving DecidableEq, Inhabited

/-- Where the names of a location are counted from: the root, or the directory so many levels above
the working directory. -/
inductive Base where
  | root
  | working (levelsAbove : Nat)
deriving DecidableEq, Repr, Inhabited

/-- A location: the names on the way to it from its base. -/
structure Location where
  base : Base
  names : List String
deriving DecidableEq, Repr, Inhabited

namespace Location

def here : Location := ⟨.working 0, []⟩

/-- The location above; the root is above itself. -/
def above (l : Location) : Location :=
  match l.names, l.base with
  | [], .root => l
  | [], .working levels => ⟨.working (levels + 1), []⟩
  | names, base => ⟨base, names.dropLast⟩

def below (l : Location) (name : String) : Location := { l with names := l.names ++ [name] }

/-- The path to a location from the working directory, or from the root. -/
def path (l : Location) : Path :=
  match l.base with
  | .root => ⟨"/", l.names⟩
  | .working levels => ⟨"", List.replicate levels ".." ++ l.names⟩

end Location

def systemDirectories : List String :=
  ["bin", "boot", "dev", "etc", "home", "lib", "media", "mnt", "opt", "proc", "root", "run", "sbin",
   "srv", "sys", "tmp", "usr", "var"]

def systemNode? (l : Location) : Option Node :=
  match l.base, l.names with
  | .root, [name] => if systemDirectories.contains name then some .directory else none
  | .root, ["dev", "null"] => some .nullDevice
  | _, _ => none

def Path.start (p : Path) : Location := if p.root.isEmpty then .here else ⟨.root, []⟩

def maxPathBytes : Nat := 4095

def maxNameBytes : Nat := 255

/-- Whether the system takes a path at all. -/
def checkPath (written : String) : Except FileError Unit :=
  if written.toList.contains '\x00' then .error .zeroInPath
  else if maxPathBytes < written.utf8ByteSize then .error .nameTooLong
  else .ok ()

end Files

open Files

structure FileTree where
  entries : List (Location × Node)
deriving DecidableEq, Inhabited

namespace FileTree

def empty : FileTree := ⟨[]⟩

/-- What is at a location. -/
def node? (t : FileTree) (l : Location) : Option Node :=
  if l.names.isEmpty then some .directory
  else (t.entries.lookup l).orElse fun _ => systemNode? l

/-- Puts a node at a location, over what was there. -/
def setNode (t : FileTree) (l : Location) (node : Node) : FileTree :=
  if t.entries.any (·.1 == l) then
    ⟨t.entries.map fun entry => if entry.1 = l then (l, node) else entry⟩
  else ⟨t.entries ++ [(l, node)]⟩

/-- Goes one part of a path on from a location, which has to be a directory. -/
def enter (t : FileTree) (l : Location) (part : String) : Except FileError Location :=
  match t.node? l with
  | none => .error .notFound
  | some (.file _) => .error .notDirectory
  | some .nullDevice => .error .notDirectory
  | some .directory =>
    if part = ".." then .ok l.above
    else if maxNameBytes < part.utf8ByteSize then .error .nameTooLong
    else .ok (l.below part)

/-- The location that a path leads to, though nothing may be there. -/
def locate (t : FileTree) (path : Path) : Except FileError Location :=
  match checkPath path.text with
  | .error e => .error e
  | .ok () => path.parts.foldlM t.enter path.start

/-- Whether something is at a path. A path with too long a name cannot be looked up. -/
def exists? (t : FileTree) (path : Path) : Except FileError Bool :=
  match t.locate path with
  | .ok l => .ok (t.node? l).isSome
  | .error .nameTooLong => .error .nameTooLong
  | .error _ => .ok false

def isDirectory (t : FileTree) (path : Path) : Bool :=
  match t.locate path with
  | .ok l => t.node? l == some .directory
  | .error _ => false

def read (t : FileTree) (path : Path) : Except FileError ByteArray :=
  match t.locate path with
  | .error e => .error e
  | .ok l =>
    match t.node? l with
    | some (.file content) => .ok content
    | some .nullDevice => .ok .empty
    | some .directory => .error .isDirectory
    | none => .error .notFound

/-- The bytes of a file under a path as it is written: the empty path leads nowhere, and one that
ends in a slash leads to a directory. -/
def readAsWritten (t : FileTree) (written : String) : Except FileError ByteArray :=
  if written.isEmpty then .error .notFound
  else
    match checkPath written with
    | .error e => .error e
    | .ok () =>
      match t.read (.ofText written) with
      | .ok content =>
        if written.endsWith "/" || written.endsWith "/." then .error .notDirectory
        else .ok content
      | .error e => .error e

/-- Makes a directory where nothing is, in a directory that is there. -/
def makeDirectory (t : FileTree) (path : Path) : Except FileError FileTree :=
  match t.locate path with
  | .error e => .error e
  | .ok l =>
    match t.node? l with
    | some _ => .error .exists
    | none => .ok (t.setNode l .directory)

def ensureDirectory (t : FileTree) (path : Path) : Except FileError Unit × FileTree :=
  match t.makeDirectory path with
  | .ok t => (.ok (), t)
  | .error e => (if t.isDirectory path then .ok () else .error e, t)

/-- Makes a directory and the ones above it, where they are missing. A failure leaves those that
were made before it. -/
def ensureDirectories (t : FileTree) (path : Path) : Except FileError Unit × FileTree :=
  match t.ensureDirectory path with
  | (.error .notFound, t) =>
    if _h : path.parts = [] then (.error .notFound, t)
    else
      match ensureDirectories t path.parent with
      | (.ok (), t) => t.ensureDirectory path
      | failed => failed
  | done => done
termination_by path.parts.length
decreasing_by
  have := List.length_pos_iff.mpr _h
  simp only [Path.parent, List.length_dropLast]
  omega

def write (t : FileTree) (path : Path) (content : ByteArray) : Except FileError FileTree :=
  match t.locate path with
  | .error e => .error e
  | .ok l =>
    match t.node? l with
    | some .directory => .error .isDirectory
    | some .nullDevice => .ok t
    | _ => .ok (t.setNode l (.file content))

def save (t : FileTree) (path : Path) (content : ByteArray) : Except FileError Unit × FileTree :=
  match t.ensureDirectories path.parent with
  | (.ok (), t) =>
    match t.write path content with
    | .ok t => (.ok (), t)
    | .error e => (.error e, t)
  | failed => failed

def changedSince (t before : FileTree) : List (Location × ByteArray) :=
  t.entries.filterMap fun (l, node) =>
    match node with
    | .file content =>
      if before.entries.lookup l = some (.file content) then none else some (l, content)
    | _ => none

end FileTree

/-- The text of a file: UTF-8, with line ends unified. -/
def decodeText (content : ByteArray) : Option Text :=
  (String.fromUTF8? content).map fun s => Text.unifyLineEnds s

end ClassGraph
