/-!
Paths of files. Repeated slashes and points that mean the same directory are dropped when a path is
read, so that one place has one written form as far as the text alone can tell.
-/

namespace ClassGraph.Files

/-- A path: the slashes it begins with, and its parts. -/
structure Path where
  root : String
  parts : List String
deriving DecidableEq, Repr

namespace Path

/-- The pieces of a text between slashes; there is at least one. -/
def pieces : List Char → List (List Char)
  | [] => [[]]
  | c :: rest =>
    if c = '/' then [] :: pieces rest
    else
      match pieces rest with
      | [] => [[c]]
      | piece :: more => (c :: piece) :: more

/-- Reads a path. Exactly two leading slashes are kept; any other number of them means one. -/
def ofText (s : String) : Path :=
  let cs := s.toList
  let slashes := (cs.takeWhile (· == '/')).length
  let root := if slashes = 0 then "" else if slashes = 2 then "//" else "/"
  let kept := (pieces cs).filter fun piece => piece ≠ [] && piece ≠ ['.']
  ⟨root, kept.map String.ofList⟩

/-- The written form; a path without parts is the directory itself. -/
def text (p : Path) : String :=
  if p.parts.isEmpty && p.root.isEmpty then "." else p.root ++ String.intercalate "/" p.parts

def parent (p : Path) : Path := { p with parts := p.parts.dropLast }

def name (p : Path) : String := p.parts.getLast?.getD ""

/-- A name cut before its last point; nothing if the point is the first or the last character. -/
def splitName? (name : String) : Option (List Char × List Char) :=
  let reversed := name.toList.reverse
  let tail := reversed.takeWhile (· != '.')
  let stem := (reversed.drop (tail.length + 1)).reverse
  if tail.length = reversed.length || tail.isEmpty || stem.isEmpty then none
  else some (stem, '.' :: tail.reverse)

/-- The ending of the name, from its last point on. -/
def suffix (p : Path) : String :=
  match splitName? p.name with
  | some (_, suffix) => String.ofList suffix
  | none => ""

def stem (p : Path) : String :=
  match splitName? p.name with
  | some (stem, _) => String.ofList stem
  | none => p.name

end Path

end ClassGraph.Files
