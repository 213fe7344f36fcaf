import ClassGraph.Proofs.Reading
import ClassGraph.Proofs.Unfolding
import ClassGraph.Tree.Import

/-! # A parsed graph comes back from its tree

A tree keeps no entity numbers. On import a nested record denotes the first
registered entity of its name, package and kind, while the parser resolves a
name alone. The two agree because every relation of a parsed graph leads to the
first entity of its name: no earlier entity can be taken for it.
-/

namespace ClassGraph

/-- An entity without its relations. -/
def Entity.bare (e : Entity) : Entity := { e with parents := [], interfaces := [] }

namespace Record

/-- What a record says of its own entity. -/
def bare : Record → Entity
  | node kind name package _ _ => ⟨name, package, kind, [], []⟩

def parents : Record → List Record
  | node _ _ _ parents _ => parents

def interfaces : Record → List Record
  | node _ _ _ _ interfaces => interfaces

/-- A record taken apart. -/
def body (r : Record) : Tree.Body :=
  ⟨r.bare.kind, r.bare.name, r.bare.package, r.parents.map toJson, r.interfaces.map toJson⟩

/-- A record shows an entity, whatever stands below it. -/
def Shows (g : Graph) (i : Nat) (r : Record) : Prop := r.bare = (g.entity i).bare

/-- A record shows an entity, and those below it show its relations. -/
structure Unfolds (g : Graph) (i : Nat) (r : Record) : Prop where
  shows : Shows g i r
  parents : List.Forall₂ (Shows g) (g.entity i).parents r.parents
  interfaces : List.Forall₂ (Shows g) (g.entity i).interfaces r.interfaces

end Record

/-! ## The tree of a graph -/

namespace Graph

variable {g : Graph}

theorem record_shows {path : List Nat} {i : Nat} {r : Record} (h : g.record path i = .ok r) :
    r.Shows g i := by
  obtain ⟨_, _, _, _, _, rfl⟩ := record_eq_ok_iff.mp h
  rfl

theorem record_unfolds {path : List Nat} {i : Nat} {r : Record} (h : g.record path i = .ok r) :
    r.Unfolds g i := by
  obtain ⟨_, parents, interfaces, hp, hi, rfl⟩ := record_eq_ok_iff.mp h
  exact ⟨rfl, (records_eq_ok_iff.mp hp).imp fun _ _ => record_shows,
    (records_eq_ok_iff.mp hi).imp fun _ _ => record_shows⟩

theorem toTree_unfolds {records : List Record} (h : g.toTree = .ok records) :
    List.Forall₂ (fun i r => r.Unfolds g i) g.registry records :=
  (records_eq_ok_iff.mp h).imp fun _ _ => record_unfolds

/-- A graph whose relations lead back in the order of numbers has a tree. -/
theorem exists_toTree_of_backward (backward : ∀ i, ∀ t ∈ (g.entity i).targets, t < i) :
    ∃ records, g.toTree = .ok records := by
  refine exists_records_iff.mpr fun i _ hc => ?_
  obtain ⟨j, _, cycle⟩ := hc
  have back {i j : Nat} (h : Relation.TransGen g.RelatesTo i j) : j < i := by
    induction h with
    | single first => exact backward i _ first
    | tail _ last ih => exact Nat.lt_trans (backward _ _ last) ih
  exact Nat.lt_irrefl j (back cycle)

end Graph

/-! ## Records are found again -/

/-- What a parsed graph is like: all its entities are registered, packages are
texts, and a relation leads to the first entity of its name. -/
structure Graph.Declared (g : Graph) : Prop where
  registry : g.registry = List.range g.entities.size
  packages : ∀ i < g.entities.size, ∃ path, (g.entity i).package = .str path
  first : ∀ i, ∀ t ∈ (g.entity i).targets, g.find? (g.nameOf t) = some t

/-- The graph in which only the entities in front of number `k` have their
relations. -/
def Graph.relatedBefore (g : Graph) (k : Nat) : Graph where
  entities := g.entities.mapIdx fun i e => if i < k then e else e.bare
  registry := g.registry

namespace Graph

variable {g : Graph}

theorem bare_relatedBefore (g : Graph) (k i : Nat) :
    ((g.relatedBefore k).entity i).bare = (g.entity i).bare := by
  unfold entity relatedBefore
  rw [Array.getD_eq_getD_getElem?, Array.getD_eq_getD_getElem?, Array.getElem?_mapIdx]
  cases g.entities[i]? with
  | none => rfl
  | some e =>
    by_cases hi : i < k
    · simp [hi]
    · simp [hi, Entity.bare]

theorem relatedBefore_of_le {k : Nat} (h : g.entities.size ≤ k) : g.relatedBefore k = g := by
  have same : g.entities.mapIdx (fun i e => if i < k then e else e.bare) = g.entities := by
    apply Array.ext_getElem?
    intro i
    rw [Array.getElem?_mapIdx]
    cases he : g.entities[i]? with
    | none => rfl
    | some e =>
      have := (Array.getElem?_eq_some_iff.mp he).1
      simp [show i < k by omega]
  unfold relatedBefore
  rw [same]

/-- One entity more gets its relations. -/
theorem relatedBefore_succ (g : Graph) (k : Nat) : g.relatedBefore (k + 1) =
    { g.relatedBefore k with entities := (g.relatedBefore k).entities.modify k fun e =>
        { e with parents := (g.entity k).parents, interfaces := (g.entity k).interfaces } } := by
  unfold relatedBefore
  congr 1
  apply Array.ext_getElem?
  intro i
  rw [Array.getElem?_modify, Array.getElem?_mapIdx, Array.getElem?_mapIdx]
  cases he : g.entities[i]? with
  | none => simp
  | some e =>
    by_cases hi : k = i
    · subst hi
      simp [entity, Array.getD_eq_getD_getElem?, he, Entity.bare]
    · simp [hi, show i < k + 1 ↔ i < k by omega]

end Graph

namespace Tree

variable {g : Graph}

theorem unpack_toJson (r : Record) : unpack r.toJson = .ok r.body := by
  cases r with
  | node kind name package parents interfaces =>
    rw [Record.toJson, Record.listToJson_eq_map, Record.listToJson_eq_map]
    unfold unpack
    simp only [EntityKind.ofTag?_tag]
    rfl

theorem unpackAll_map (rs : List Record) :
    unpackAll (rs.map Record.toJson) = .ok (rs.map Record.body) := by
  induction rs with
  | nil => rfl
  | cons r rs ih =>
    rw [List.map_cons, unpackAll, unpack_toJson, ih]; rfl

theorem foldl_declare (es : List Entity) (g : Graph) :
    es.foldl Graph.declare g =
      ⟨g.entities ++ es.toArray, g.registry ++ List.range' g.entities.size es.length⟩ := by
  induction es generalizing g with
  | nil => simp
  | cons e es ih =>
    rw [List.foldl_cons, ih]
    simp [Graph.declare, Graph.create, Graph.register, List.range'_succ]

/-- The entity of a record, before it has relations. -/
def Body.entity (body : Body) : Entity := ⟨body.name, body.package, body.kind, [], []⟩

theorem map_entity (rs : List Record) :
    (rs.map Record.body).map Body.entity = rs.map Record.bare := by
  rw [List.map_map]
  exact List.map_congr_left fun r _ => by cases r; rfl

theorem registryOf_eq (bodies : List Body) :
    registryOf bodies = ⟨(bodies.map Body.entity).toArray, List.range bodies.length⟩ := by
  have declared : registryOf bodies = (bodies.map Body.entity).foldl Graph.declare .empty := by
    unfold registryOf
    rw [List.foldl_map]
    rfl
  rw [declared, foldl_declare, List.length_map, List.range_eq_range']
  simp [Graph.empty]

theorem registryOf_map (rs : List Record) :
    registryOf (rs.map Record.body) = ⟨(rs.map Record.bare).toArray, List.range rs.length⟩ := by
  rw [registryOf_eq, map_entity, List.length_map]

theorem map_bare {is : List Nat} {rs : List Record}
    (h : List.Forall₂ (fun i r => r.Unfolds g i) is rs) :
    rs.map Record.bare = is.map fun i => (g.entity i).bare := by
  induction h with
  | nil => rfl
  | cons hr _ ih => rw [List.map_cons, List.map_cons, ih, hr.shows]

theorem registryOf_unfolded (hg : g.Declared) {rs : List Record}
    (h : List.Forall₂ (fun i r => r.Unfolds g i) g.registry rs) :
    registryOf (rs.map Record.body) = g.relatedBefore 0 := by
  have size : rs.length = g.entities.size := by
    rw [← h.length_eq, hg.registry, List.length_range]
  unfold Graph.relatedBefore
  rw [registryOf_map, map_bare h, hg.registry, size]
  congr 1
  apply Array.ext_getElem?
  intro i
  rw [List.getElem?_toArray, List.getElem?_map, Array.getElem?_mapIdx]
  cases he : g.entities[i]? with
  | none =>
    have := Array.getElem?_eq_none_iff.mp he
    simp [this]
  | some e =>
    have entity : g.entity i = e := by simp [Graph.entity, Array.getD_eq_getD_getElem?, he]
    have := (Array.getElem?_eq_some_iff.mp he).1
    simp [this, entity]

/-- Only the entities themselves count, not their relations. -/
theorem denoted?_eq (g : Graph) (body : Body) : denoted? g body = g.registry.find? fun i =>
    (g.entity i).bare.name == body.name && (g.entity i).bare.package.same body.package &&
      (g.entity i).bare.kind == body.kind := rfl

theorem denoted?_relatedBefore (g : Graph) (k : Nat) (body : Body) :
    denoted? (g.relatedBefore k) body = denoted? g body := by
  rw [denoted?_eq, denoted?_eq]
  simp only [Graph.bare_relatedBefore]
  rfl

/-- An earlier entity that is taken for another one would be the first of its
name. -/
theorem denoted?_of_first (hg : g.Declared) {i : Nat} {r : Record} (hr : r.Shows g i)
    (first : g.find? (g.nameOf i) = some i) : denoted? g r.body = some i := by
  unfold Graph.find? at first
  rw [hg.registry] at first
  obtain ⟨_, hi, before⟩ := List.find?_range_eq_some.mp first
  obtain ⟨path, hp⟩ := hg.packages i (List.mem_range.mp hi)
  have package : (g.entity i).bare.package = .str path := hp
  rw [denoted?_eq, hg.registry]
  change (List.range _).find? (fun j => (g.entity j).bare.name == r.bare.name &&
    (g.entity j).bare.package.same r.bare.package && (g.entity j).bare.kind == r.bare.kind) = _
  rw [show r.bare = _ from hr]
  refine List.find?_range_eq_some.mpr ⟨?_, hi, ?_⟩
  · simp [package, Json.same]
  · intro j hj
    have other : (g.nameOf j == g.nameOf i) = false := by
      rw [← Bool.not_eq_true']; exact before j hj
    rw [show ((g.entity j).bare.name == (g.entity i).bare.name) = false from other]; rfl

theorem bind_related (hg : g.Declared) (k : Nat) {i : Nat} {r : Record} (hr : r.Shows g i)
    (first : g.find? (g.nameOf i) = some i) :
    bind (g.relatedBefore k) r.toJson = .ok (g.relatedBefore k, i) := by
  have found : denoted? (g.relatedBefore k) r.body = some i := by
    rw [denoted?_relatedBefore]; exact denoted?_of_first hg hr first
  rw [bind]
  split <;> rename_i hu <;> rw [unpack_toJson] at hu <;> cases hu
  rw [found]

theorem bindAll_related (hg : g.Declared) (k : Nat) {is : List Nat} {rs : List Record}
    (h : List.Forall₂ (Record.Shows g) is rs)
    (first : ∀ i ∈ is, g.find? (g.nameOf i) = some i) :
    bindAll (g.relatedBefore k) (rs.map Record.toJson) = .ok (g.relatedBefore k, is) := by
  induction h with
  | nil => rw [List.map_nil, bindAll]
  | @cons i r is rs hr _ ih =>
    have rest := ih fun j hj => first j (List.mem_cons_of_mem _ hj)
    rw [List.map_cons, bindAll, bind_related hg k hr (first i List.mem_cons_self)]
    simp only [rest]

theorem attachAll_related (hg : g.Declared) {rs : List Record} {k : Nat}
    (h : List.Forall₂ (fun i r => r.Unfolds g i) (List.range' k rs.length) rs) :
    attachAll (g.relatedBefore k) k (rs.map Record.body) =
      .ok (g.relatedBefore (k + rs.length)) := by
  induction rs generalizing k with
  | nil => rfl
  | cons r rs ih =>
    rw [List.length_cons, List.range'_succ] at h
    obtain ⟨hr, rest⟩ := List.forall₂_cons.mp h
    have parents := bindAll_related hg k hr.parents fun t ht =>
      hg.first k t (List.mem_append_left _ ht)
    have interfaces := bindAll_related hg k hr.interfaces fun t ht =>
      hg.first k t (List.mem_append_right _ ht)
    rw [List.map_cons, attachAll]
    simp only [Record.body, parents, interfaces]
    rw [← Graph.relatedBefore_succ, ih rest, List.length_cons, Nat.add_right_comm, Nat.add_assoc]

end Tree

namespace Graph.Declared

variable {g : Graph}

theorem ofTree_toTree (hg : g.Declared) {records : List Record} (h : g.toTree = .ok records) :
    ofTree (treeToJson records) = .ok g := by
  have unfolds := toTree_unfolds h
  have size : records.length = g.entities.size := by
    rw [← unfolds.length_eq, hg.registry, List.length_range]
  have numbered :
      List.Forall₂ (fun i r => r.Unfolds g i) (List.range' 0 records.length) records := by
    rw [size, ← List.range_eq_range', ← hg.registry]; exact unfolds
  unfold ofTree treeToJson
  simp only [Tree.unpackAll_map, Tree.registryOf_unfolded hg unfolds,
    Tree.attachAll_related hg numbered]
  rw [relatedBefore_of_le (by omega)]

theorem target_mem (hg : g.Declared) {i t : Nat} (ht : t ∈ (g.entity i).targets) :
    t ∈ g.registry := List.mem_of_find?_eq_some (hg.first i t ht)

end Graph.Declared

/-! ## Parsed graphs -/

theorem Edge.exists_of_mem_targets {edges : List Edge} {i t : Nat} {relation : Relation}
    (h : t ∈ targets edges i relation) : ∃ e ∈ edges, e.child = i ∧ e.target = t := by
  obtain ⟨e, he, ht⟩ := List.mem_map.mp h
  obtain ⟨hmem, hc⟩ := List.mem_filter.mp he
  exact ⟨e, hmem, (of_decide_eq_true hc).1, ht⟩

namespace Diagram

variable {d : Diagram}

/-- A name that an edge was drawn to keeps its meaning up to the end. -/
theorem first_of_mem_edges {e : Edge} (h : e ∈ d.edges) :
    (d.graphBefore d.length).find? ((d.graphBefore d.length).nameOf e.target) =
      some e.target := by
  obtain ⟨k, hk, he⟩ := List.mem_filterMap.mp h
  obtain ⟨name, hn⟩ := target_of_edgeAt he
  have denoted := entityNamed_mono hn (Nat.le_of_lt (List.mem_range.mp hk))
  obtain ⟨c, hc, rfl⟩ := name_of_entityNamed denoted
  rw [find?_graphBefore, nameOf_graphBefore hc, denoted]

theorem exists_edge_of_mem_targets {i t : Nat}
    (h : t ∈ ((d.graphBefore d.length).entity i).targets) :
    ∃ e ∈ d.edges, e.child = i ∧ e.target = t := by
  cases he : (d.declarationsBefore d.length)[i]? with
  | none =>
    have hi := List.getElem?_eq_none_iff.mp he
    rw [← size_entities_graphBefore] at hi
    rw [Graph.entity_of_size_le hi] at h
    cases h
  | some e =>
    rw [entity_graphBefore he] at h
    rcases List.mem_append.mp h with h | h
    · exact Edge.exists_of_mem_targets h
    · exact Edge.exists_of_mem_targets h

theorem declared_graphBefore (d : Diagram) : (d.graphBefore d.length).Declared where
  registry := by rw [registry_graphBefore, size_entities_graphBefore]
  packages := by
    intro i hi
    rw [size_entities_graphBefore] at hi
    exact ⟨_, by rw [entity_graphBefore (List.getElem?_eq_getElem hi)]; rfl⟩
  first := by
    intro i t ht
    obtain ⟨e, he, _, rfl⟩ := exists_edge_of_mem_targets ht
    exact first_of_mem_edges he

end Diagram

/-- Where a parsed graph has a tree, the tree gives the same graph back: the same
entities under the same numbers, with the same relations in the same order. All
of them are registered, so none is rebuilt outside the registry. Only a cycle
leaves a graph without a tree. -/
theorem ofTree_toTree_of_parse {source : Text} {g : Graph} (h : parse source = .ok g)
    (acyclic : ∀ name, g.toTree ≠ .error (.cycle name)) :
    ∃ records, g.toTree = .ok records ∧ Graph.ofTree (treeToJson records) = .ok g ∧
      g.registry = List.range g.entities.size ∧
      (∀ i, ∀ t ∈ (g.entity i).targets, t ∈ g.registry) ∧
      (Graph.ofTree (treeToJson records) >>= Graph.toTree) = .ok records := by
  obtain ⟨d, _, _, rfl, _⟩ := Builder.parsed h
  have declared := d.declared_graphBefore
  cases tree : (d.graphBefore d.length).toTree with
  | error e =>
    obtain ⟨name, rfl⟩ := Graph.cycle_of_records tree
    exact absurd tree (acyclic name)
  | ok records =>
    have back := declared.ofTree_toTree tree
    refine ⟨records, rfl, back, declared.registry, fun _ _ ht => declared.target_mem ht, ?_⟩
    rw [back]; exact tree

/-- Entities that share their name, package and kind come back as they were,
with an ancestor that two of them share. -/
theorem ofTree_toTree_of_duplicates : ∃ (source : Text) (g : Graph) (records : List Record),
    source = ("interface I class A implements I class A package p \x7b class A \x7d " ++
      "class B extends A implements I class C extends A extends B" : String) ∧
    parse source = .ok g ∧ g.toTree = .ok records ∧
    Graph.ofTree (treeToJson records) = .ok g ∧ g.registry = List.range g.entities.size := by
  let source : Text :=
    ("interface I class A implements I class A package p \x7b class A \x7d " ++
      "class B extends A implements I class C extends A extends B" : String)
  obtain ⟨g, hg⟩ : ∃ g, parse source = .ok g := exists_ok_of_isOk (by decide +kernel)
  obtain ⟨d, _, hs, rfl, _⟩ := Builder.parsed hg
  have backward : ∀ e ∈ d.edges, e.target < e.child := by
    rw [← show _ = d from congrArg Prod.fst hs]
    decide +kernel
  obtain ⟨records, tree⟩ := Graph.exists_toTree_of_backward (g := d.graphBefore d.length) (by
    intro i t ht
    obtain ⟨e, he, rfl, rfl⟩ := Diagram.exists_edge_of_mem_targets ht
    exact backward e he)
  obtain ⟨_, tree', back, registry, _⟩ := ofTree_toTree_of_parse hg (by
    intro name cycle
    rw [tree] at cycle; cases cycle)
  cases tree.symm.trans tree'
  exact ⟨source, _, records, rfl, hg, tree, back, registry⟩

end ClassGraph
