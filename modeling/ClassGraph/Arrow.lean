import ClassGraph.Kind
import ClassGraph.Text.Search

/-!
Arrows. What an arrow means depends on its head and on the line next to the head. The direction
words inside an arrow are layout hints and mean nothing.
-/

namespace ClassGraph

/-- The side of an arrow that its head is on. -/
inductive Side where
  | left
  | right
deriving DecidableEq, Repr

namespace Arrow

/-- What an arrow states. Only the first two families are relations of a class graph. -/
inductive Family where
  | inheritance
  | realization
  | association
  | dependency
  | aggregation
  | composition
  | link
  | unknown
deriving DecidableEq, Repr

def Family.label : Family → String
  | .inheritance => "inheritance"
  | .realization => "realization"
  | .association => "association"
  | .dependency => "dependency"
  | .aggregation => "aggregation"
  | .composition => "composition"
  | .link => "link"
  | .unknown => "unknown"

/-- The relation that a family states, if it states one. -/
def Family.relation? : Family → Option Relation
  | .inheritance => some .inherits
  | .realization => some .realizes
  | _ => none

def directions : List Text := ["up", "down", "left", "right"]

/-- The direction word at the front, and what follows it. No direction word begins another. -/
def stripDirection? (cs : Text) : Option Text :=
  directions.findSome? (Text.stripWord? · cs)

theorem length_stripDirection {cs rest : Text} (h : stripDirection? cs = some rest) :
    rest.length < cs.length := by
  obtain ⟨word, hw, hs⟩ := List.exists_of_findSome?_eq_some h
  rw [Text.stripWord?_eq_some_iff] at hs
  subst hs
  have : 0 < word.length := by
    simp only [directions, List.mem_cons, List.not_mem_nil, or_false] at hw
    rcases hw with rfl | rfl | rfl | rfl <;> decide
  simp only [List.length_append]
  omega

/-- An arrow without its direction words, which are dropped in one reading from left to right. -/
def normalize (cs : Text) : Text :=
  match h : stripDirection? cs with
  | some rest =>
    have := length_stripDirection h
    normalize rest
  | none =>
    match cs with
    | [] => []
    | c :: rest => c :: normalize rest
termination_by cs.length

/-- The families of arrows with their head on the left, by how the arrow begins. -/
def leftFamilies : List (Text × Family) :=
  [("<|.", .realization), ("<|-", .inheritance), ("<-", .association), ("<.", .dependency),
   ("o-", .aggregation), ("o.", .aggregation), ("*-", .composition), ("*.", .composition)]

/-- The families of arrows with their head on the right, by how the arrow ends; the first row
that fits counts, and an arrow without a head fits one of the last two. -/
def rightFamilies : List (Text × Family) :=
  [(".|>", .realization), ("-|>", .inheritance), ("->", .association), (".>", .dependency),
   ("-o", .aggregation), (".o", .aggregation), ("-*", .composition), (".*", .composition),
   ("-", .link), (".", .link)]

def pick (fits : Text → Bool) (table : List (Text × Family)) : Family :=
  match table.find? fun row => fits row.1 with
  | some row => row.2
  | none => .unknown

/-- The family of an arrow with its head on the given side. -/
def family (side : Side) (text : Text) : Family :=
  let arrow := normalize text
  match side with
  | .left => pick (·.isPrefixOf arrow) leftFamilies
  | .right => pick (·.isSuffixOf arrow) rightFamilies

end Arrow

end ClassGraph
