import ClassGraph.Json.Basic
import ClassGraph.Kind
import ClassGraph.Place

/-!
Class graphs. Entities are numbered in the order in which they come into being, and refer to each
other by number, so that cycles need no care. The registry lists the declared entities; an entity
that is only referred to stands outside it.
-/

namespace ClassGraph

/-- A class, abstract class or interface. The package of a parsed entity is a text; an imported
tree may hold any value there. -/
structure Entity where
  name : Text
  package : Json
  kind : EntityKind
  parents : List Nat
  interfaces : List Nat
deriving Inhabited, BEq

/-- The entities that an entity is related to: its parents, then its interfaces. -/
def Entity.targets (e : Entity) : List Nat := e.parents ++ e.interfaces

def Entity.relate (e : Entity) (relation : Relation) (target : Nat) : Entity :=
  match relation with
  | .inherits => { e with parents := e.parents ++ [target] }
  | .realizes => { e with interfaces := e.interfaces ++ [target] }

/-- All entities by number, and the numbers of the registered ones in order. -/
structure Graph where
  entities : Array Entity
  registry : List Nat
deriving BEq

namespace Graph

def empty : Graph := ⟨#[], []⟩

/-- The entity with a given number. A number that is not in use stands for an entity without name
or relations. -/
def entity (g : Graph) (i : Nat) : Entity := g.entities.getD i default

def nameOf (g : Graph) (i : Nat) : Text := (g.entity i).name

/-- A new entity that is not registered, and its number. -/
def create (g : Graph) (e : Entity) : Graph × Nat :=
  ({ g with entities := g.entities.push e }, g.entities.size)

def register (g : Graph) (i : Nat) : Graph := { g with registry := g.registry ++ [i] }

def declare (g : Graph) (e : Entity) : Graph :=
  let (g, i) := g.create e
  g.register i

def relate (g : Graph) (child : Nat) (relation : Relation) (target : Nat) : Graph :=
  { g with entities := g.entities.modify child (·.relate relation target) }

def find? (g : Graph) (name : Text) : Option Nat :=
  g.registry.find? fun i => g.nameOf i == name

def last? (g : Graph) : Option Nat := g.registry.getLast?

def entityAt (g : Graph) (place : Int) : Except PlaceError Nat := itemAt g.registry place

def size (g : Graph) : Nat := g.registry.length

def names (g : Graph) : List Text := g.registry.map g.nameOf

/-- Brings in the entities of another graph, which keep their relations to each other, and makes
its registry the registry. -/
def replaceBy (g other : Graph) : Graph :=
  let offset := g.entities.size
  let move := List.map (offset + ·)
  let moved := other.entities.map fun e =>
    { e with parents := move e.parents, interfaces := move e.interfaces }
  ⟨g.entities ++ moved, move other.registry⟩

/-! ## Rows -/

/-- Appends the entities that are not listed yet, in order. -/
def appendNew (listed : List Nat) : List Nat → List Nat
  | [] => listed
  | i :: rest => appendNew (if i ∈ listed then listed else listed ++ [i]) rest

/-- Goes through a growing list of entities from place `i` on and appends the targets of each.
`fuel` bounds the places gone through. -/
def growRows (g : Graph) : (fuel i : Nat) → List Nat → List Nat
  | 0, _, rows => rows
  | fuel + 1, i, rows =>
    match rows[i]? with
    | none => rows
    | some j => growRows g fuel (i + 1) (appendNew rows (g.entity j).targets)

/-- The registry, followed by every other entity that can be reached from it, in the order met.
Each row beyond the registry is the target of some relation, which bounds their number. -/
def rows (g : Graph) : List Nat :=
  let relations := (g.entities.toList.flatMap Entity.targets).length
  g.growRows (g.registry.length + relations) 0 g.registry

end Graph

end ClassGraph
