import ClassGraph.Error
import ClassGraph.Graph
import ClassGraph.Tree

/-!
Reading a tree back into a class graph. The records at the top become the registry. A nested record
denotes the first of them with its name, package and kind; where there is none it becomes an entity
outside the registry. Only what is read is checked: what lies below a record that denotes a
registered entity is not looked at.
-/

namespace ClassGraph.Tree

/-- The parts of a record; the records below it are not read yet. -/
structure Body where
  kind : EntityKind
  name : Text
  package : Json
  parents : List Json
  interfaces : List Json

/-- A list of relations, which may be missing. -/
def relationList (members : List (Text × Json)) (key : String) (name : Text) :
    Except TreeFault (List Json) :=
  match members.lookup (key : Text) with
  | none => .ok []
  | some (.arr items) => .ok items
  | some _ => .error (.notList key name)

def unpack (value : Json) : Except TreeFault Body :=
  match value with
  | .obj [(tag, body)] =>
    match EntityKind.ofTag? tag with
    | none => .error (.unknownTag tag)
    | some kind =>
      match body with
      | .obj members =>
        match members.lookup ("Name" : Text) with
        | some (.str name) =>
          match relationList members "Parents" name with
          | .error fault => .error fault
          | .ok parents =>
            match relationList members "Interfaces" name with
            | .error fault => .error fault
            | .ok interfaces =>
              .ok ⟨kind, name, (members.lookup ("Package" : Text)).getD (.str ""), parents,
                interfaces⟩
        | _ => .error (.missingName tag)
      | _ => .error (.missingName tag)
  | _ => .error (.notRecord value)

theorem sizeOf_lookup {members : List (Text × Json)} {key : Text} {value : Json}
    (h : members.lookup key = some value) : sizeOf value < sizeOf members := by
  induction members with
  | nil => simp at h
  | cons m rest ih =>
    obtain ⟨k, v⟩ := m
    rw [List.lookup_cons] at h
    split at h
    · simp only [Option.some.injEq] at h
      subst h
      simp only [List.cons.sizeOf_spec, Prod.mk.sizeOf_spec]
      omega
    · have := ih h
      simp only [List.cons.sizeOf_spec]
      omega

theorem sizeOf_relationList {members : List (Text × Json)} {key : String}
    {name : Text} {items : List Json} (h : relationList members key name = .ok items) :
    sizeOf items ≤ sizeOf members := by
  unfold relationList at h
  split at h
  · simp only [Except.ok.injEq] at h
    subst h
    cases members with
    | nil => simp
    | cons _ _ =>
      simp only [List.nil.sizeOf_spec, List.cons.sizeOf_spec]
      omega
  · rename_i found hl
    have := sizeOf_lookup hl
    simp only [Except.ok.injEq] at h
    subst h
    simp only [Json.arr.sizeOf_spec] at this
    omega
  · simp at h

theorem sizeOf_unpack {value : Json} {body : Body} (h : unpack value = .ok body) :
    sizeOf body.parents < sizeOf value ∧ sizeOf body.interfaces < sizeOf value := by
  unfold unpack at h
  split at h
  · split at h
    · simp at h
    · split at h
      · rename_i tag _ _ _ members
        split at h
        · split at h
          · simp at h
          · rename_i parents hp
            split at h
            · simp at h
            · rename_i interfaces hi
              have h₁ := sizeOf_relationList hp
              have h₂ := sizeOf_relationList hi
              simp only [Except.ok.injEq] at h
              subst h
              simp only [Json.obj.sizeOf_spec, List.cons.sizeOf_spec, Prod.mk.sizeOf_spec]
              omega
        · simp at h
      · simp at h
  · simp at h

def denoted? (g : Graph) (body : Body) : Option Nat :=
  g.registry.find? fun i =>
    let e := g.entity i
    e.name == body.name && e.package.same body.package && e.kind == body.kind

mutual

def bind (g : Graph) (value : Json) : Except TreeFault (Graph × Nat) :=
  match h : unpack value with
  | .error fault => .error fault
  | .ok body =>
    match denoted? g body with
    | some i => .ok (g, i)
    | none =>
      have := sizeOf_unpack h
      match bindAll g body.parents with
      | .error fault => .error fault
      | .ok (g, parents) =>
        match bindAll g body.interfaces with
        | .error fault => .error fault
        | .ok (g, interfaces) =>
          .ok (g.create ⟨body.name, body.package, body.kind, parents, interfaces⟩)
termination_by sizeOf value

def bindAll (g : Graph) (values : List Json) : Except TreeFault (Graph × List Nat) :=
  match values with
  | [] => .ok (g, [])
  | value :: rest =>
    match bind g value with
    | .error fault => .error fault
    | .ok (g, i) =>
      match bindAll g rest with
      | .error fault => .error fault
      | .ok (g, is) => .ok (g, i :: is)
termination_by sizeOf values

end

/-- Gives registered entities their relations, from number `i` on. -/
def attachAll (g : Graph) (i : Nat) : List Body → Except TreeFault Graph
  | [] => .ok g
  | body :: rest =>
    match bindAll g body.parents with
    | .error fault => .error fault
    | .ok (g, parents) =>
      match bindAll g body.interfaces with
      | .error fault => .error fault
      | .ok (g, interfaces) =>
        attachAll { g with entities := g.entities.modify i ({ · with parents, interfaces }) }
          (i + 1) rest

/-- The records at the top, taken apart. -/
def unpackAll : List Json → Except TreeFault (List Body)
  | [] => .ok []
  | value :: rest =>
    match unpack value with
    | .error fault => .error fault
    | .ok body =>
      match unpackAll rest with
      | .error fault => .error fault
      | .ok bodies => .ok (body :: bodies)

/-- The graph whose registry is made of the given records, without relations. -/
def registryOf (bodies : List Body) : Graph :=
  bodies.foldl (fun g body => g.declare ⟨body.name, body.package, body.kind, [], []⟩) .empty

end Tree

def Graph.ofTree (tree : Json) : Except DiagramError Graph :=
  match tree with
  | .arr records =>
    match Tree.unpackAll records with
    | .error fault => .error (.tree fault)
    | .ok bodies =>
      match Tree.attachAll (Tree.registryOf bodies) 0 bodies with
      | .error fault => .error (.tree fault)
      | .ok g => .ok g
  | _ => .error (.tree .notArray)

/-- Why a document has no graph. -/
inductive DocumentError where
  | notObject
  | diagram (e : DiagramError)

/-- The graph of a document; a document without a tree has no entities. -/
def Graph.ofDocument (document : Json) : Except DocumentError Graph :=
  match document with
  | .obj members =>
    match Graph.ofTree ((members.lookup ("entities" : Text)).getD (.arr [])) with
    | .ok g => .ok g
    | .error e => .error (.diagram e)
  | _ => .error .notObject

end ClassGraph
