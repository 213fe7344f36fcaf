import ClassGraph.Decimal.Notation
import ClassGraph.Json.Basic
import ClassGraph.Text.Quoted

/-!
Values in messages and headings. The literal form shows the whole structure on one line, with
texts between single quotes; the display form of a text is the text itself.
-/

namespace ClassGraph.Json

mutual

def literal : Json → String
  | null => "None"
  | bool true => "True"
  | bool false => "False"
  | int i => toString i
  | real x => Decimal.write64 Decimal.plainStyle x
  | str s => Text.quoted s
  | arr [] => "[]"
  | arr (item :: items) => "[" ++ literal item ++ literalItems items ++ "]"
  | obj [] => "\x7b\x7d"
  | obj ((key, value) :: members) =>
    "\x7b" ++ Text.quoted key ++ ": " ++ literal value ++ literalMembers members ++ "\x7d"

def literalItems : List Json → String
  | [] => ""
  | item :: items => ", " ++ literal item ++ literalItems items

def literalMembers : List (Text × Json) → String
  | [] => ""
  | (key, value) :: members =>
    ", " ++ Text.quoted key ++ ": " ++ literal value ++ literalMembers members

end

/-- A text stands for itself, another value is shown in its literal form. -/
def display : Json → Text
  | str s => s
  | value => literal value

end ClassGraph.Json
