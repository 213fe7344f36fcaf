import ClassGraph.Proofs.RoundTrip
import ClassGraph.Proofs.Sameness

/-! # Importing a tree twice

An import binds a nested record to an entity that may look different: its package
is equal by meaning only, and what it shows below itself is not looked at. A
record that denotes no registered entity is rebuilt outside the registry. The
tree of the graph shows what was bound to, so that a second import binds every
record to the same entity, by the same rule, in the same order.
-/

namespace ClassGraph

namespace Tree

/-- Binding a list of records to entities. What is rebuilt gets its number after
everything below it. -/
inductive BindsAll : Graph → List Json → Graph → List Nat → Prop where
  | nil {g : Graph} : BindsAll g [] g []
  | found {g g' : Graph} {value : Json} {rest : List Json} {body : Body} {i : Nat} {is : List Nat}
      (unpacked : unpack value = .ok body) (denoted : denoted? g body = some i)
      (others : BindsAll g rest g' is) : BindsAll g (value :: rest) g' (i :: is)
  | rebuilt {g g₁ g₂ g' : Graph} {value : Json} {rest : List Json} {body : Body}
      {parents interfaces is : List Nat}
      (unpacked : unpack value = .ok body) (unknown : denoted? g body = none)
      (extended : BindsAll g body.parents g₁ parents)
      (implemented : BindsAll g₁ body.interfaces g₂ interfaces)
      (others : BindsAll (g₂.create ⟨body.name, body.package, body.kind, parents, interfaces⟩).1
        rest g' is) :
      BindsAll g (value :: rest) g' (g₂.entities.size :: is)

variable {g g' G : Graph} {values : List Json} {is : List Nat}

theorem bindsAll_of_bindAll (h : bindAll g values = .ok (g', is)) : BindsAll g values g' is := by
  induction hn : sizeOf values using Nat.strongRecOn generalizing g values g' is with
  | ind n ih =>
    cases values with
    | nil =>
      rw [bindAll] at h
      cases h
      exact .nil
    | cons value rest =>
      rw [List.cons.sizeOf_spec] at hn
      rw [bindAll] at h
      split at h
      · cases h
      rename_i g₃ i bound
      split at h
      · cases h
      rename_i g₄ is' others
      cases h
      have others := ih _ (by omega) others rfl
      rw [bind] at bound
      split at bound
      · cases bound
      rename_i body unpacked
      split at bound
      · rename_i denoted
        cases bound
        exact .found unpacked denoted others
      · rename_i unknown
        have := sizeOf_unpack unpacked
        split at bound
        · cases bound
        rename_i extended
        split at bound
        · cases bound
        rename_i implemented
        cases bound
        exact .rebuilt unpacked unknown (ih _ (by omega) extended rfl)
          (ih _ (by omega) implemented rfl) others

theorem bind_found {value : Json} {body : Body} {i : Nat} (unpacked : unpack value = .ok body)
    (denoted : denoted? g body = some i) : bind g value = .ok (g, i) := by
  rw [bind]
  split <;> rename_i hu <;> rw [unpacked] at hu <;> cases hu
  rw [denoted]

theorem bind_rebuilt {g₁ g₂ : Graph} {value : Json} {body : Body} {parents interfaces : List Nat}
    (unpacked : unpack value = .ok body) (unknown : denoted? g body = none)
    (extended : bindAll g body.parents = .ok (g₁, parents))
    (implemented : bindAll g₁ body.interfaces = .ok (g₂, interfaces)) : bind g value =
      .ok (g₂.create ⟨body.name, body.package, body.kind, parents, interfaces⟩) := by
  rw [bind]
  split <;> rename_i hu <;> rw [unpacked] at hu <;> cases hu
  simp only [unknown, extended, implemented]

theorem BindsAll.bindAll_eq (h : BindsAll g values g' is) : bindAll g values = .ok (g', is) := by
  induction h with
  | nil => rw [bindAll]
  | found unpacked denoted _ ih =>
    rw [bindAll, bind_found unpacked denoted]
    simp only [ih]
  | rebuilt unpacked unknown _ _ _ extended implemented others =>
    rw [bindAll, bind_rebuilt unpacked unknown extended implemented]
    simp only [Graph.create] at others ⊢
    simp only [others]

/-! ## What binding leaves alone -/

/-- A graph with more entities, none of them registered. -/
structure Grows (g g' : Graph) : Prop where
  registry : g'.registry = g.registry
  size : g.entities.size ≤ g'.entities.size
  entity : ∀ i < g.entities.size, g'.entity i = g.entity i

theorem Grows.refl (g : Graph) : Grows g g := ⟨rfl, Nat.le_refl _, fun _ _ => rfl⟩

theorem Grows.trans {g₁ g₂ g₃ : Graph} (h : Grows g₁ g₂) (h' : Grows g₂ g₃) : Grows g₁ g₃ where
  registry := h'.registry.trans h.registry
  size := Nat.le_trans h.size h'.size
  entity i hi := (h'.entity i (Nat.lt_of_lt_of_le hi h.size)).trans (h.entity i hi)

theorem entity_create_self (g : Graph) (e : Entity) :
    (g.create e).1.entity g.entities.size = e := by
  simp [Graph.create, Graph.entity, Array.getD_eq_getD_getElem?]

theorem grows_create (g : Graph) (e : Entity) : Grows g (g.create e).1 where
  registry := rfl
  size := by simp [Graph.create]
  entity i hi := by
    simp [Graph.create, Graph.entity, Array.getD_eq_getD_getElem?, Array.getElem?_push, hi.ne]

theorem BindsAll.grows (h : BindsAll g values g' is) : Grows g g' := by
  induction h with
  | nil => exact .refl _
  | found _ _ _ ih => exact ih
  | rebuilt _ _ _ _ _ extended implemented others =>
    exact ((extended.trans implemented).trans (grows_create _ _)).trans others

/-! ## The second pass -/

/-- What a graph under construction has in common with the finished one: the
entities in front of number `k` and all those outside the registry are done, and
of the others only the relations are open. -/
structure Settles (k : Nat) (g G : Graph) : Prop where
  registry : G.registry = g.registry
  bare : ∀ i < g.entities.size, (G.entity i).bare = (g.entity i).bare
  done : ∀ i < g.entities.size, i < k ∨ i ∉ g.registry → G.entity i = g.entity i

theorem Settles.of_grows {k : Nat} (h : Settles k g' G) (grows : Grows g g') : Settles k g G where
  registry := h.registry.trans grows.registry
  bare i hi := by rw [h.bare i (Nat.lt_of_lt_of_le hi grows.size), grows.entity i hi]
  done i hi hd := by
    rw [h.done i (Nat.lt_of_lt_of_le hi grows.size) (grows.registry ▸ hd), grows.entity i hi]

/-- The registered entities are there, and each has a package that is the same as
itself. -/
structure Founded (g : Graph) : Prop where
  lt : ∀ i ∈ g.registry, i < g.entities.size
  same : ∀ i ∈ g.registry, (g.entity i).package.same (g.entity i).package = true

theorem Founded.of_grows (h : Founded g) (grows : Grows g g') : Founded g' where
  lt i hi := Nat.lt_of_lt_of_le (h.lt i (grows.registry ▸ hi)) grows.size
  same i hi := by
    have hi := grows.registry ▸ hi
    rw [grows.entity i (h.lt i hi)]
    exact h.same i hi

/-- A record of the entity that was bound to denotes it again: whatever is the
same as the entity is the same as what was bound. -/
theorem denoted?_of_denoted (founded : Founded g) {body : Body} {i : Nat} {r : Record}
    (denoted : denoted? g body = some i) (shown : r.bare = (g.entity i).bare) :
    denoted? g r.body = some i := by
  have registered : i ∈ g.registry := List.mem_of_find?_eq_some denoted
  obtain ⟨found, front, behind, split, before⟩ := List.find?_eq_some_iff_append.mp denoted
  simp only [Bool.and_eq_true, beq_iff_eq] at found
  obtain ⟨⟨name, package⟩, kind⟩ := found
  have key : r.body.name = (g.entity i).name ∧ r.body.package = (g.entity i).package ∧
      r.body.kind = (g.entity i).kind :=
    ⟨(congrArg Entity.name shown :), (congrArg Entity.package shown :),
      (congrArg Entity.kind shown :)⟩
  refine List.find?_eq_some_iff_append.mpr ⟨?_, front, behind, split, fun j hj => ?_⟩
  · simp [key, founded.same i registered]
  · have other := before j hj
    rw [Bool.not_eq_true', ← Bool.not_eq_true] at other ⊢
    refine fun same => other ?_
    simp only [key, name, kind, Bool.and_eq_true] at same ⊢
    exact ⟨⟨same.1.1, Json.same_trans same.1.2 package⟩, same.2⟩

/-- Records that show what was bound in full are bound in the same way. An entity
that was rebuilt has the key of its record, and so its record is rebuilt. -/
theorem BindsAll.again {k : Nat} {rs : List Record} (h : BindsAll g values g' is)
    (founded : Founded g) (settles : Settles k g' G)
    (complete : List.Forall₂ (Record.Complete G) is rs) :
    BindsAll g (rs.map Record.toJson) g' is := by
  induction h generalizing rs with
  | nil =>
    cases complete
    exact .nil
  | @found g g' value rest body i is unpacked denoted others ih =>
    cases complete with
    | @cons _ r _ _ first later =>
      have size := founded.lt i (List.mem_of_find?_eq_some denoted)
      have shown := (settles.of_grows others.grows).bare i size
      cases first with
      | node extended implemented =>
        exact .found (unpack_toJson _) (denoted?_of_denoted founded denoted shown)
          (ih founded settles later)
  | @rebuilt g g₁ g₂ g' value rest body parents interfaces is unpacked unknown extended implemented
      others ih₁ ih₂ ih₃ =>
    cases complete with
    | @cons _ r _ _ first later =>
      have grows := extended.grows.trans implemented.grows
      have settles' := settles.of_grows others.grows
      have settles₂ := settles'.of_grows (grows_create g₂ _)
      -- the rebuilt entity stands behind the registered ones, so it is done
      have created := settles'.done g₂.entities.size (by simp [Graph.create]) (.inr fun hr =>
        Nat.lt_irrefl _ ((founded.of_grows grows).lt _ hr))
      rw [entity_create_self] at created
      cases first with
      | @node _ rps ris below below' =>
        rw [created] at below below' ⊢
        exact .rebuilt (unpack_toJson _) unknown
          (ih₁ founded (settles₂.of_grows implemented.grows) below)
          (ih₂ (founded.of_grows extended.grows) settles₂ below')
          (ih₃ (founded.of_grows (grows.trans (grows_create g₂ _))) settles later)

/-! ## Registered entities get their relations -/

/-- A graph with the relations of one entity replaced. -/
def attach (g : Graph) (k : Nat) (parents interfaces : List Nat) : Graph :=
  { g with entities := g.entities.modify k ({ · with parents, interfaces }) }

variable {k : Nat} {parents interfaces : List Nat}

theorem size_attach : (attach g k parents interfaces).entities.size = g.entities.size := by
  simp [attach]

theorem entity_attach_self (hk : k < g.entities.size) :
    (attach g k parents interfaces).entity k = { g.entity k with parents, interfaces } := by
  simp [attach, Graph.entity, Array.getD_eq_getD_getElem?, Array.getElem_modify, hk]

theorem entity_attach_of_ne {i : Nat} (hi : i ≠ k) :
    (attach g k parents interfaces).entity i = g.entity i := by
  simp [attach, Graph.entity, Array.getD_eq_getD_getElem?, Array.getElem?_modify, hi.symm]

theorem bare_attach {i : Nat} (hi : i < g.entities.size) :
    ((attach g k parents interfaces).entity i).bare = (g.entity i).bare := by
  by_cases hk : i = k
  · subst hk
    rw [entity_attach_self hi]
    rfl
  · rw [entity_attach_of_ne hk]

theorem attachAll_cons_eq_ok_iff {body : Body} {rest : List Body} :
    attachAll g k (body :: rest) = .ok G ↔ ∃ g₁ parents g₂ interfaces,
      bindAll g body.parents = .ok (g₁, parents) ∧
      bindAll g₁ body.interfaces = .ok (g₂, interfaces) ∧
      attachAll (attach g₂ k parents interfaces) (k + 1) rest = .ok G := by
  rw [attachAll]
  constructor
  · intro h
    split at h
    · cases h
    rename_i extended
    split at h
    · cases h
    rename_i implemented
    exact ⟨_, _, _, _, extended, implemented, h⟩
  · intro h
    obtain ⟨_, _, _, _, extended, implemented, rest⟩ := h
    simp only [extended, implemented]
    exact rest

theorem Founded.attach (h : Founded g) : Founded (attach g k parents interfaces) where
  lt i hi := Nat.lt_of_lt_of_eq (h.lt i hi) size_attach.symm
  same i hi := by
    have same := h.same i hi
    change (g.entity i).bare.package.same (g.entity i).bare.package = true at same
    rw [← bare_attach (h.lt i hi)] at same
    exact same

theorem Settles.of_attach (h : Settles (k + 1) (attach g k parents interfaces) G)
    (registered : k ∈ g.registry) : Settles k g G where
  registry := h.registry
  bare i hi := by rw [h.bare i (Nat.lt_of_lt_of_eq hi size_attach.symm), bare_attach hi]
  done i hi open' := by
    have other : i ≠ k := by
      rcases open' with lt | out
      · exact Nat.ne_of_lt lt
      · exact fun e => out (e ▸ registered)
    rw [h.done i (Nat.lt_of_lt_of_eq hi size_attach.symm) (open'.imp_left Nat.lt_succ_of_lt),
      entity_attach_of_ne other]

variable {bodies : List Body}

theorem settles_of_attachAll (h : attachAll g k bodies = .ok G)
    (registered : ∀ j, k ≤ j → j < k + bodies.length → j ∈ g.registry) : Settles k g G := by
  induction bodies generalizing g k with
  | nil =>
    cases h
    exact ⟨rfl, fun _ _ => rfl, fun _ _ _ => rfl⟩
  | cons body rest ih =>
    obtain ⟨g₁, _, g₂, _, extended, implemented, others⟩ := attachAll_cons_eq_ok_iff.mp h
    have grows := (bindsAll_of_bindAll extended).grows.trans (bindsAll_of_bindAll implemented).grows
    rw [List.length_cons] at registered
    have settles := ih others fun j hj hl =>
      show j ∈ g₂.registry from grows.registry ▸ registered j (by omega) (by omega)
    exact (settles.of_attach (grows.registry ▸ registered k (by omega) (by omega))).of_grows grows

theorem attachAll_again {rs : List Record} (h : attachAll g k bodies = .ok G)
    (founded : Founded g) (registered : ∀ j, k ≤ j → j < k + bodies.length → j ∈ g.registry)
    (complete : List.Forall₂ (Record.Complete G) (List.range' k bodies.length) rs) :
    attachAll g k (rs.map Record.body) = .ok G := by
  induction bodies generalizing g k rs with
  | nil =>
    cases complete
    exact h
  | cons body rest ih =>
    obtain ⟨g₁, parents, g₂, interfaces, extended, implemented, others⟩ :=
      attachAll_cons_eq_ok_iff.mp h
    have extended := bindsAll_of_bindAll extended
    have implemented := bindsAll_of_bindAll implemented
    have grows := extended.grows.trans implemented.grows
    rw [List.length_cons] at registered complete
    have here : k ∈ g₂.registry := grows.registry ▸ registered k (by omega) (by omega)
    have later : ∀ j, k + 1 ≤ j → j < k + 1 + rest.length → j ∈ g₂.registry := fun j hj hl =>
      grows.registry ▸ registered j (by omega) (by omega)
    have settles := settles_of_attachAll others later
    have settles₂ := settles.of_attach here
    have founded₁ := founded.of_grows extended.grows
    have founded₂ := founded₁.of_grows implemented.grows
    rw [List.range'_succ] at complete
    cases complete with
    | @cons _ r _ rs first below =>
      have again := ih others founded₂.attach later below
      have attached := settles.done k (founded₂.attach.lt k here) (.inl (Nat.lt_succ_self k))
      rw [entity_attach_self (founded₂.lt k here)] at attached
      cases first with
      | node shown shown' =>
        rw [attached] at shown shown'
        exact attachAll_cons_eq_ok_iff.mpr ⟨g₁, parents, g₂, interfaces,
          (extended.again founded (settles₂.of_grows implemented.grows) shown).bindAll_eq,
          (implemented.again founded₁ settles₂ shown').bindAll_eq, again⟩

/-! ## The registry -/

theorem entity_registryOf {i : Nat} {body : Body} (h : bodies[i]? = some body) :
    (registryOf bodies).entity i = body.entity := by
  simp [registryOf_eq, Graph.entity, Array.getD_eq_getD_getElem?, h]

/-- A value that can be taken apart. -/
theorem exists_members_of_unpack {value : Json} {body : Body} (h : unpack value = .ok body) :
    ∃ members, value = .obj [(body.kind.tag, .obj members)] ∧
      members.lookup ("Name" : Text) = some (.str body.name) ∧
      body.package = (members.lookup ("Package" : Text)).getD (.str "") ∧
      relationList members "Parents" body.name = .ok body.parents ∧
      relationList members "Interfaces" body.name = .ok body.interfaces := by
  unfold unpack at h
  split at h
  · split at h
    · cases h
    rename_i kind known
    split at h
    · rename_i members
      split at h
      · rename_i name named
        split at h
        · cases h
        rename_i extended
        split at h
        · cases h
        rename_i implemented
        cases h
        rw [EntityKind.ofTag?_eq_some_iff] at known
        exact ⟨members, by rw [known], named, rfl, extended, implemented⟩
      · cases h
    · cases h
  · cases h

/-- The package of a record is part of it; a record without one has an empty text. -/
theorem package_of_unpack {value : Json} {body : Body} (proper : value.Proper)
    (h : unpack value = .ok body) : body.package.Proper := by
  obtain ⟨members, rfl, _, package, _⟩ := exists_members_of_unpack h
  rw [package]
  cases proper with
  | obj _ parts =>
    cases parts _ List.mem_cons_self with
    | obj _ parts =>
      cases hp : members.lookup ("Package" : Text) with
      | none => exact .str _
      | some package => exact parts _ (Json.mem_of_lookup_eq_some hp)

theorem forall₂_of_unpackAll {values : List Json} (h : unpackAll values = .ok bodies) :
    List.Forall₂ (fun value body => unpack value = .ok body) values bodies := by
  induction values generalizing bodies with
  | nil =>
    cases h
    exact .nil
  | cons value rest ih =>
    rw [unpackAll] at h
    split at h
    · cases h
    rename_i first
    split at h
    · cases h
    rename_i others
    cases h
    exact .cons first (ih others)

theorem founded_registryOf {values : List Json} (proper : ∀ value ∈ values, value.Proper)
    (h : unpackAll values = .ok bodies) : Founded (registryOf bodies) where
  lt i hi := by
    rw [registryOf_eq] at hi ⊢
    simpa using hi
  same i hi := by
    rw [registryOf_eq] at hi
    have hi := List.mem_range.mp hi
    have unpacked := forall₂_of_unpackAll h
    have unpacked := unpacked.get (unpacked.length_eq ▸ hi) hi
    rw [entity_registryOf (List.getElem?_eq_getElem hi)]
    exact (package_of_unpack (proper _ (List.get_mem _ _)) unpacked).same_self

theorem registryOf_again {rs : List Record} (settles : Settles 0 (registryOf bodies) G)
    (shown : List.Forall₂ (fun i r => r.Unfolds G i) G.registry rs) :
    registryOf (rs.map Record.body) = registryOf bodies := by
  have entities : (rs.map Record.body).map Body.entity = bodies.map Body.entity := by
    rw [map_entity, map_bare shown, settles.registry, registryOf_eq]
    refine List.ext_getElem (by simp) fun i hi _ => ?_
    have hi : i < bodies.length := by simpa using hi
    have bare := settles.bare i (by simpa [registryOf_eq] using hi)
    rw [entity_registryOf (List.getElem?_eq_getElem hi)] at bare
    simp only [List.getElem_map, List.getElem_range]
    exact bare
  have length : rs.length = bodies.length := by
    simpa using congrArg List.length entities
  rw [registryOf_eq, registryOf_eq, entities, List.length_map, length]

theorem ofTree_eq_ok_iff {tree : Json} : Graph.ofTree tree = .ok g ↔ ∃ values bodies,
    tree = .arr values ∧ unpackAll values = .ok bodies ∧
      attachAll (registryOf bodies) 0 bodies = .ok g := by
  unfold Graph.ofTree
  constructor
  · intro h
    split at h
    · split at h
      · cases h
      rename_i unpacked
      split at h
      · cases h
      rename_i attached
      cases h
      exact ⟨_, _, rfl, unpacked, attached⟩
    · cases h
  · intro h
    obtain ⟨_, _, rfl, unpacked, attached⟩ := h
    simp only [unpacked, attached]

end Tree

/-- An import settles everything that a tree leaves open: the tree of the graph
that it gives can be imported, to the same graph, and so it is the tree that is
given back. This holds of every tree whose numbers are numbers. -/
theorem ofTree_toTree_of_ofTree {tree : Json} (proper : tree.Proper) {g : Graph}
    (h : Graph.ofTree tree = .ok g) {records : List Record} (written : g.toTree = .ok records) :
    Graph.ofTree (treeToJson records) = .ok g ∧
      (Graph.ofTree (treeToJson records) >>= Graph.toTree) = .ok records := by
  obtain ⟨values, bodies, rfl, unpacked, attached⟩ := Tree.ofTree_eq_ok_iff.mp h
  have registered : ∀ j, 0 ≤ j → j < 0 + bodies.length →
      j ∈ (Tree.registryOf bodies).registry := by
    intro j _ hj
    rw [Tree.registryOf_eq]
    exact List.mem_range.mpr (by omega)
  have founded := Tree.founded_registryOf (Json.proper_arr_iff.mp proper) unpacked
  have settles := Tree.settles_of_attachAll attached registered
  have complete := (Graph.records_eq_ok_iff.mp written).imp fun _ _ => Graph.complete_of_record
  rw [settles.registry, Tree.registryOf_eq, List.range_eq_range'] at complete
  have attached' := Tree.attachAll_again attached founded registered complete
  rw [← Tree.registryOf_again settles (Graph.toTree_unfolds written)] at attached'
  have again : Graph.ofTree (treeToJson records) = .ok g :=
    Tree.ofTree_eq_ok_iff.mpr ⟨_, _, rfl, Tree.unpackAll_map records, attached'⟩
  refine ⟨again, ?_⟩
  rw [again]
  exact written

/-- Two records whose packages are the same number, a nested record that says so
in a third way and hides a relation, and one that is rebuilt, with a record below
it that is rebuilt as well. -/
theorem ofTree_toTree_of_loose : ∃ (tree : Json) (g : Graph) (records : List Record),
    tree = .arr [
      .obj [("class", .obj [("Name", .str "A"), ("Package", .int 1), ("Color", .null)])],
      .obj [("class", .obj [("Name", .str "A"), ("Package", .real 1.0), ("Parents", .arr [
        .obj [("class", .obj [("Name", .str "A"), ("Package", .bool true), ("Parents", .arr [
          .obj [("class", .obj [("Name", .str "C")])]])])]])])],
      .obj [("interface", .obj [("Name", .str "I"), ("Interfaces", .arr [
        .obj [("class", .obj [("Name", .str "B"), ("Package", .arr [.int 0]), ("Parents", .arr [
          .obj [("class", .obj [("Name", .str "A"), ("Package", .int 2)])],
          .obj [("class", .obj [("Package", .int 1), ("Name", .str "A")])]])])]])])]] ∧
    g = ⟨#[⟨"A", .int 1, .concrete, [], []⟩, ⟨"A", .real 1.0, .concrete, [0], []⟩,
      ⟨"I", .str "", .interface, [], [4]⟩, ⟨"A", .int 2, .concrete, [], []⟩,
      ⟨"B", .arr [.int 0], .concrete, [3, 0], []⟩], [0, 1, 2]⟩ ∧
    tree.Proper ∧ Graph.ofTree tree = .ok g ∧ g.toTree = .ok records ∧
    Graph.ofTree (treeToJson records) = .ok g := by
  let stranger : Json := .obj [("class", .obj [("Name", .str "A"), ("Package", .int 2)])]
  let swapped : Json := .obj [("class", .obj [("Package", .int 1), ("Name", .str "A")])]
  let truth : Json := .obj [("class", .obj [("Name", .str "A"), ("Package", .bool true),
    ("Parents", .arr [.obj [("class", .obj [("Name", .str "C")])]])])]
  let apart : Json := .obj [("class", .obj [("Name", .str "B"), ("Package", .arr [.int 0]),
    ("Parents", .arr [stranger, swapped])])]
  let tree : Json := .arr [
    .obj [("class", .obj [("Name", .str "A"), ("Package", .int 1), ("Color", .null)])],
    .obj [("class", .obj [("Name", .str "A"), ("Package", .real 1.0), ("Parents", .arr [truth])])],
    .obj [("interface", .obj [("Name", .str "I"), ("Interfaces", .arr [apart])])]]
  let bodies : List Tree.Body := [⟨.concrete, "A", .int 1, [], []⟩,
    ⟨.concrete, "A", .real 1.0, [truth], []⟩, ⟨.interface, "I", .str "", [], [apart]⟩]
  let a : Entity := ⟨"A", .int 1, .concrete, [], []⟩
  let a' : Entity := ⟨"A", .real 1.0, .concrete, [0], []⟩
  let c : Entity := ⟨"A", .int 2, .concrete, [], []⟩
  let b : Entity := ⟨"B", .arr [.int 0], .concrete, [3, 0], []⟩
  let g₁ : Graph := ⟨#[a, a'.bare, ⟨"I", .str "", .interface, [], []⟩], [0, 1, 2]⟩
  let g₂ : Graph := ⟨#[a, a', ⟨"I", .str "", .interface, [], []⟩], [0, 1, 2]⟩
  let g₃ : Graph := ⟨#[a, a', ⟨"I", .str "", .interface, [], []⟩, c], [0, 1, 2]⟩
  let g₄ : Graph := ⟨#[a, a', ⟨"I", .str "", .interface, [], []⟩, c, b], [0, 1, 2]⟩
  let g : Graph := ⟨#[a, a', ⟨"I", .str "", .interface, [], [4]⟩, c, b], [0, 1, 2]⟩
  have reading : Decimal.reading64 1.0 = .finite false ⟨2 ^ 52, -52⟩ := by decide +kernel
  have proper : tree.Proper := by
    simp +decide [tree, truth, apart, swapped, stranger]
  have said : Tree.unpack truth = .ok ⟨.concrete, "A", .bool true, _, []⟩ := rfl
  have said₁ : Tree.unpack stranger = .ok ⟨.concrete, "A", .int 2, [], []⟩ := rfl
  have said₂ : Tree.unpack swapped = .ok ⟨.concrete, "A", .int 1, [], []⟩ := rfl
  have said₃ : Tree.unpack apart = .ok ⟨.concrete, "B", .arr [.int 0], [stranger, swapped], []⟩ :=
    rfl
  have first : Tree.BindsAll g₁ [truth] g₁ [0] :=
    .found said (by simp [Tree.denoted?, g₁, a, Graph.entity, Json.same]) .nil
  have inner : Tree.BindsAll g₂ [stranger, swapped] g₃ [3, 0] :=
    .rebuilt said₁ (by simp +decide [Tree.denoted?, g₂, a, a', Graph.entity, Json.same, reading])
      .nil .nil
      (.found said₂ (by simp [Tree.denoted?, g₂, a, Graph.entity, Graph.create, Json.same]) .nil)
  have last : Tree.BindsAll g₂ [apart] g₄ [4] :=
    .rebuilt said₃ (by simp +decide [Tree.denoted?, g₂, a, a', Graph.entity]) inner .nil .nil
  have attached : Tree.attachAll (Tree.registryOf bodies) 0 bodies = .ok g := by
    refine Tree.attachAll_cons_eq_ok_iff.mpr ⟨g₁, [], g₁, [], Tree.BindsAll.nil.bindAll_eq,
      Tree.BindsAll.nil.bindAll_eq, ?_⟩
    refine Tree.attachAll_cons_eq_ok_iff.mpr ⟨g₁, [0], g₁, [],
      first.bindAll_eq, Tree.BindsAll.nil.bindAll_eq, ?_⟩
    refine Tree.attachAll_cons_eq_ok_iff.mpr ⟨g₂, [], g₄, [4], Tree.BindsAll.nil.bindAll_eq,
      last.bindAll_eq, rfl⟩
  have imported : Graph.ofTree tree = .ok g :=
    Tree.ofTree_eq_ok_iff.mpr ⟨_, bodies, rfl, rfl, attached⟩
  have zero : Record.Complete g 0 (.node .concrete "A" (.int 1) [] []) := .node .nil .nil
  have one : Record.Complete g 1 _ := .node (.cons zero .nil) .nil
  have two : Record.Complete g 2 _ :=
    .node .nil (.cons (.node (.cons (.node .nil .nil) (.cons zero .nil)) .nil) .nil)
  have written : g.toTree = .ok _ := Graph.records_eq_ok_iff.mpr
    (.cons (Graph.record_eq_ok_iff_complete.mpr zero)
      (.cons (Graph.record_eq_ok_iff_complete.mpr one)
        (.cons (Graph.record_eq_ok_iff_complete.mpr two) .nil)))
  exact ⟨tree, g, _, rfl, rfl, proper, imported, written,
    (ofTree_toTree_of_ofTree proper imported written).1⟩

end ClassGraph
