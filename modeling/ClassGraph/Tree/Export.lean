import ClassGraph.Error
import ClassGraph.Graph
import ClassGraph.Tree

/-!
Unfolding a class graph into a tree. An entity that is met again on the way down from itself has
no finite unfolding; an entity met on two separate ways is written out twice.
-/

namespace ClassGraph.Graph

/-- How many entities are not on the way `path`. -/
def offPath (g : Graph) (path : List Nat) : Nat :=
  ((List.range g.entities.size).filter fun i => i ∉ path).length

theorem offPath_cons_lt {g : Graph} {path : List Nat} {i : Nat} (hi : i < g.entities.size)
    (h : i ∉ path) : g.offPath (i :: path) < g.offPath path := by
  have split : (List.range g.entities.size).filter (fun j => j ∉ i :: path) =
      ((List.range g.entities.size).filter fun j => j ∉ path).filter (· ≠ i) := by
    rw [List.filter_filter]
    congr 1
    funext j
    simp only [List.mem_cons, not_or, Bool.decide_and]
  unfold offPath
  rw [split]
  refine Nat.lt_of_le_of_ne (List.length_filter_le _ _) fun e => ?_
  have := List.length_filter_eq_length_iff.mp e i (by simp [hi, h])
  simp at this

mutual

/-- The unfolding of an entity. `path` holds the entities above it. -/
def record (g : Graph) (path : List Nat) (i : Nat) : Except DiagramError Record :=
  if hp : i ∈ path then .error (.cycle (g.nameOf i))
  else if hi : i < g.entities.size then
    have := offPath_cons_lt hi hp
    match records g (i :: path) (g.entity i).parents with
    | .error e => .error e
    | .ok parents =>
      match records g (i :: path) (g.entity i).interfaces with
      | .error e => .error e
      | .ok interfaces =>
        let e := g.entity i
        .ok (.node e.kind e.name e.package parents interfaces)
  else
    let e := g.entity i
    .ok (.node e.kind e.name e.package [] [])
termination_by (g.offPath path, 0)

/-- The unfoldings of a list of entities; the first that has none decides. -/
def records (g : Graph) (path : List Nat) (is : List Nat) : Except DiagramError (List Record) :=
  match is with
  | [] => .ok []
  | i :: rest =>
    match record g path i with
    | .error e => .error e
    | .ok r =>
      match records g path rest with
      | .error e => .error e
      | .ok rs => .ok (r :: rs)
termination_by (g.offPath path, is.length + 1)

end

/-- The tree of a graph: one unfolding for each registered entity. -/
def toTree (g : Graph) : Except DiagramError (List Record) := g.records [] g.registry

def treeJson (g : Graph) : Except DiagramError Json := g.toTree.map treeToJson

def document (g : Graph) : Except DiagramError Json := g.toTree.map documentOf

end ClassGraph.Graph
