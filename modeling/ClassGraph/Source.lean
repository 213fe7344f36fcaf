import ClassGraph.Files.Tree
import ClassGraph.Page

/-! The text of a diagram out of a file: the whole file, or one of the diagrams of a page. -/

namespace ClassGraph

/-- Why a file gives no diagram text. -/
inductive LoadError where
  | file (e : FileError)
  /-- The file is not UTF-8. -/
  | undecodable
  | noBlock (path : String)
  | place (e : PlaceError)
  /-- The file is a page, and no place is named. -/
  | placeMissing
deriving DecidableEq, Repr

/-- The message of the errors about the diagrams of a page. -/
def LoadError.blockMessage? : LoadError → Option String
  | .noBlock path => some ("No PlantUML block found in " ++ path)
  | .place e => some e.message
  | _ => none

namespace Source

/-- The small letter of a letter in a file ending; the Kelvin sign counts as a k. -/
def smallLetter (c : Char) : Char := if c.toNat = 0x212a then 'k' else c.toLower

def isPageSuffix (suffix : String) : Bool :=
  let small := suffix.toList.map smallLetter
  small == ".md".toList || small == ".markdown".toList

def fromPage (path : String) (page : Text) (place : Option Int) : Except LoadError Text :=
  match Page.blocks page with
  | [] => .error (.noBlock path)
  | blocks =>
    match place with
    | none => .error .placeMissing
    | some place =>
      match itemAt blocks place with
      | .ok block => .ok block.text
      | .error e => .error (.place e)

/-- The text of a diagram file, or of the diagram at a place of a page. -/
def load (files : FileTree) (path : String) (place : Option Int) : Except LoadError Text :=
  let location := Files.Path.ofText path
  match files.read location with
  | .error e => .error (.file e)
  | .ok content =>
    match decodeText content with
    | none => .error .undecodable
    | some text =>
      if isPageSuffix location.suffix then fromPage path text place else .ok text

end Source

end ClassGraph
