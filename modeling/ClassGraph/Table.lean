import ClassGraph.Graph
import ClassGraph.Json.Display

/-! The overview of a class graph as a table, one row for each registered entity. -/

namespace ClassGraph.Table

/-- The bar separates cells; inside a cell it is written behind a backslash. -/
def escapeCell (t : Text) : Text :=
  t.flatMap fun c : CodePoint => if c = '|' then "\\|" else [c]

/-- The text of a value in a cell; an absent value leaves the cell empty. -/
def cell (value : Json) : Text :=
  if value.isBlankValue then "" else escapeCell value.display

def nameList (names : List Text) : Text := escapeCell (Text.join ", " names)

/-- The cells of an entity: name, kind, package, parents and interfaces. -/
def cells (g : Graph) (i : Nat) : List Text :=
  let e := g.entity i
  [escapeCell e.name, escapeCell e.kind.tag, cell e.package, nameList (e.parents.map g.nameOf),
   nameList (e.interfaces.map g.nameOf)]

def row (cells : List Text) : Text := "| " ++ Text.join " | " cells ++ " |"

/-- The heading; a table may have no title. -/
def heading (title : Text) : Text :=
  if title.isEmpty then "#### Class Diagram" else "#### Class Diagram: " ++ title

def lines (g : Graph) (title : Text) : List Text :=
  if g.registry.isEmpty then [heading title, "", "_No class-like entities._", ""]
  else
    [heading title, "", "| Name | Kind | Package | Extends | Implements |",
      "|------|------|---------|---------|------------|"] ++
      g.registry.map (fun i => row (cells g i)) ++ [[]]

def render (g : Graph) (title : Text) : Text := Text.join "\n" (lines g title)

end ClassGraph.Table
