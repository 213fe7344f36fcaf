import ClassGraph.Proofs.Diagram

/-! # The graph of some declarations and edges

Declarations in order, and edges between their numbers in order, describe a class
graph. One more of either is one more step of building: a declaration adds an
entity without relations, and an edge adds one reference.
-/

namespace ClassGraph

theorem Edge.targets_snoc (edges : List Edge) (e : Edge) (child : Nat) (relation : Relation) :
    targets (edges ++ [e]) child relation = targets edges child relation ++
      if e.child = child ∧ e.relation = relation then [e.target] else [] := by
  unfold targets
  rw [List.filter_append, List.map_append]
  split <;> rename_i h <;> simp [h]

theorem Edge.targets_eq_nil {edges : List Edge} {child : Nat} (relation : Relation)
    (h : ∀ e ∈ edges, e.child < child) : targets edges child relation = [] := by
  unfold targets
  rw [List.map_eq_nil_iff, List.filter_eq_nil_iff]
  intro e he hc
  have := h e he
  simp only [decide_eq_true_eq] at hc
  omega

theorem Declaration.entity_relate (e : Declaration) (edges : List Edge) (edge : Edge) :
    (e.entity edges edge.child).relate edge.relation edge.target =
      e.entity (edges ++ [edge]) edge.child := by
  unfold entity Entity.relate
  cases h : edge.relation <;> simp [Edge.targets_snoc, h]

theorem Declaration.entity_of_ne (e : Declaration) (edges : List Edge) {edge : Edge} {i : Nat}
    (h : edge.child ≠ i) : e.entity (edges ++ [edge]) i = e.entity edges i := by
  unfold entity
  simp [Edge.targets_snoc, h]

namespace Graph

/-- The class graph of declarations, in order, that are related by edges, in order. -/
def described (ds : List Declaration) (es : List Edge) : Graph where
  entities := (ds.mapIdx (Declaration.entity es)).toArray
  registry := List.range ds.length

variable {ds : List Declaration} (es : List Edge)

theorem described_declare {es : List Edge} (h : ∀ e ∈ es, e.child < ds.length) {d : Declaration} :
    described (ds ++ [d]) es =
      (described ds es).declare ⟨d.name, .str d.package, d.kind, [], []⟩ := by
  have fresh : d.entity es ds.length = ⟨d.name, .str d.package, d.kind, [], []⟩ := by
    unfold Declaration.entity
    rw [Edge.targets_eq_nil _ h, Edge.targets_eq_nil _ h]
  simp only [described, List.mapIdx_concat, fresh, List.length_append, List.length_singleton,
    List.range_succ]
  simp [declare, create, register]

theorem described_relate (ds : List Declaration) (e : Edge) : described ds (es ++ [e]) =
    (described ds es).relate e.child e.relation e.target := by
  simp only [described, relate, Graph.mk.injEq, and_true]
  apply Array.ext_getElem?
  intro i
  rw [Array.getElem?_modify, List.getElem?_toArray, List.getElem?_toArray, List.getElem?_mapIdx,
    List.getElem?_mapIdx]
  cases ds[i]? with
  | none => simp
  | some c =>
    by_cases hi : e.child = i
    · subst hi
      simp [Declaration.entity_relate]
    · simp [hi, Declaration.entity_of_ne c _ hi]

theorem entity_described {i : Nat} {d : Declaration} (h : ds[i]? = some d) :
    (described ds es).entity i = d.entity es i := by
  unfold entity described
  rw [Array.getD_eq_getD_getElem?, List.getElem?_toArray, List.getElem?_mapIdx, h]
  rfl

theorem nameOf_described {i : Nat} {d : Declaration} (h : ds[i]? = some d) :
    (described ds es).nameOf i = d.name := by
  unfold nameOf
  rw [entity_described es h]; rfl

theorem find?_described (ds : List Declaration) (name : Text) :
    (described ds es).find? name = ds.findIdx? fun d => d.name == name := by
  have named {i : Nat} (hi : i < ds.length) : (described ds es).nameOf i = ds[i].name :=
    nameOf_described es (List.getElem?_eq_getElem hi)
  apply Option.ext
  intro i
  unfold find?
  change (List.range _).find? _ = _ ↔ _
  rw [List.find?_range_eq_some, List.findIdx?_eq_some_iff_getElem]
  constructor
  · intro h
    obtain ⟨hp, hi, hlt⟩ := h
    have hi := List.mem_range.mp hi
    refine ⟨hi, named hi ▸ hp, fun j hj => ?_⟩
    rw [← named (by omega)]
    simpa using hlt j hj
  · intro h
    obtain ⟨hi, hp, hlt⟩ := h
    refine ⟨(named hi).symm ▸ hp, List.mem_range.mpr hi, fun j hj => ?_⟩
    rw [named (by omega)]
    simpa using hlt j hj

end Graph

end ClassGraph
