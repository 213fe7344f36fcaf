import ClassGraph.Graph
import ClassGraph.Json.Display

/-!
Class graphs on one line, for a reader who looks for a mistake. Relations may run in circles, so
an entity shows the names of its targets and goes no further.
-/

namespace ClassGraph.Graph

/-- The names of some entities, as a literal. -/
def literalNames (g : Graph) (is : List Nat) : String :=
  (Json.arr (is.map fun i => .str (g.nameOf i))).literal

def describe (g : Graph) (i : Nat) : String :=
  let e := g.entity i
  "ClassLike(name=" ++ Text.quoted e.name ++ ", package=" ++ e.package.literal ++
    ", kind=" ++ Text.quoted e.kind.tag ++ ", parents=" ++ g.literalNames e.parents ++
    ", interfaces=" ++ g.literalNames e.interfaces ++ ")"

def describeRegistry (g : Graph) : String := "Nodes(" ++ g.literalNames g.registry ++ ")"

end ClassGraph.Graph
