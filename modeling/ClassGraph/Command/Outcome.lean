import ClassGraph.Error
import ClassGraph.Files.Tree
import ClassGraph.Source
import ClassGraph.Tree.Import

/-! What a command leaves behind: how it ended, what it printed, and the files. -/

namespace ClassGraph.Command

inductive Crash where
  | file (e : FileError)
  /-- A file is not UTF-8. -/
  | undecodable
  /-- The diagram of a page is to be chosen, but no place is named. -/
  | placeMissing
  | numberTooLong
  | documentNotObject
  | diagram (e : DiagramError)

def Crash.message : Crash → Text
  | .file e => e.wording
  | .undecodable => "A file is not UTF-8"
  | .placeMissing => "No place in the page is named"
  | .numberTooLong => "A number in a document is too long"
  | .documentNotObject => "A document is not an object"
  | .diagram e => e.message

inductive Ending where
  | code (n : Nat)
  | crash (c : Crash)

structure Outcome where
  ending : Ending
  stdout : Text
  stderr : Text
  files : FileTree

def Outcome.done (files : FileTree) (stdout stderr : Text) : Outcome :=
  ⟨.code 0, stdout, stderr, files⟩

def Outcome.reported (files : FileTree) (message : Text) : Outcome :=
  ⟨.code 1, "", "Error: " ++ message ++ "\n", files⟩

/-- The arguments do not fit the command. The wording of the report is left open. -/
def Outcome.refused (files : FileTree) : Outcome := ⟨.code 2, "", "", files⟩

/-- The command fails in a way that it does not report by itself. -/
def Outcome.crashed (files : FileTree) (c : Crash) : Outcome := ⟨.crash c, "", "", files⟩

end ClassGraph.Command
