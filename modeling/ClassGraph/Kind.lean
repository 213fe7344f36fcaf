import ClassGraph.Text.CodePoint

/-! The kinds of entities in a class diagram, and the two relations that a diagram may state. -/

namespace ClassGraph

inductive EntityKind where
  | concrete
  | abstract
  | interface
deriving DecidableEq, Repr, Inhabited

def EntityKind.tag : EntityKind → String
  | .concrete => "class"
  | .abstract => "abstract class"
  | .interface => "interface"

def EntityKind.ofTag? (tag : Text) : Option EntityKind :=
  [EntityKind.concrete, .abstract, .interface].find? fun kind => kind.tag == tag

@[simp]
theorem EntityKind.ofTag?_tag (kind : EntityKind) : ofTag? kind.tag = some kind := by
  cases kind <;> decide

theorem EntityKind.ofTag?_eq_some_iff {tag : Text} {kind : EntityKind} :
    ofTag? tag = some kind ↔ tag = kind.tag := by
  constructor
  · intro h
    have := List.find?_some h
    exact (beq_iff_eq.mp this).symm
  · rintro rfl
    exact ofTag?_tag kind

/-- A relation from one entity to another: to a parent that it inherits from, or to an interface
that it realizes. -/
inductive Relation where
  | inherits
  | realizes
deriving DecidableEq, Repr, Inhabited

def Relation.keyword : Relation → String
  | .inherits => "extends"
  | .realizes => "implements"

end ClassGraph
