import ClassGraph.Proofs.Refusal
import ClassGraph.Proofs.Unfolding

/-! # Records that come back to themselves

A tree is finite, and yet the graph that is imported from it may have a cycle: a
nested record may refer to a record at the top, and what stands below that one is
read there. Each entity of the graph has a record, and its relations lead where
the records in the lists of its record lead. An entity outside the registry is
made after all that stands below it, so that every cycle passes through the
registry, and it does so if and only if a record at the top comes back to itself.
-/

namespace ClassGraph

namespace Tree

/-- What is read below one record at the top. -/
inductive ReadBelow (records : List Json) (top : Json) : Json → Prop where
  | first {value : Json} (below : Below value top) : ReadBelow records top value
  | further {value record : Json} (read : ReadBelow records top record)
      (unknown : ∀ other ∈ records, ¬ RefersTo record other) (below : Below value record) :
      ReadBelow records top value

/-- Something that is read below one record at the top refers to another one, or to the same. -/
def ComesTo (records : List Json) (i j : Nat) : Prop :=
  ∃ top value, records[i]? = some top ∧ ReadBelow records top value ∧ First records value j

variable {records origins values : List Json} {value : Json} {body : Body} {g g' G : Graph}
  {i j k : Nat} {is parents interfaces : List Nat}

theorem First.lt (h : First records value i) : i < records.length := by
  obtain ⟨⟨top, here, _⟩, _⟩ := h
  exact (List.getElem?_eq_some_iff.mp here).1

theorem ComesTo.lt (h : ComesTo records i j) : i < records.length := by
  obtain ⟨top, _, ht, _⟩ := h
  exact (List.getElem?_eq_some_iff.mp ht).1

theorem lt_of_comes (h : Relation.TransGen (ComesTo records) i j) : i < records.length := by
  obtain ⟨_, comes, _⟩ := Relation.TransGen.head'_iff.mp h
  exact comes.lt

theorem First.unique (h : First records value i) (h' : First records value j) : i = j := by
  obtain ⟨⟨top, here, refers⟩, before⟩ := h
  obtain ⟨⟨top', here', refers'⟩, before'⟩ := h'
  rcases Nat.lt_trichotomy i j with lt | eq | lt
  · exact absurd refers (before' i lt top here)
  · exact eq
  · exact absurd refers' (before j lt top' here')

theorem First.not_unknown (h : First records value i) :
    ¬ ∀ top ∈ records, ¬ RefersTo value top := by
  obtain ⟨⟨top, here, refers⟩, _⟩ := h
  exact fun unknown => unknown top (List.mem_of_getElem? here) refers

/-! ## The record of each entity -/

/-- The entity that a record stands for, where entities have these records: the one of the first
record at the top that it refers to, or one outside the registry that was made for it. -/
inductive StandsFor (records origins : List Json) (value : Json) (i : Nat) : Prop where
  | registered (first : First records value i)
  | apart (unknown : ∀ top ∈ records, ¬ RefersTo value top) (outside : records.length ≤ i)
      (made : origins[i]? = some value)

/-- The relations of an entity lead where the records in the lists of a record lead. -/
structure Shows (records origins : List Json) (value : Json) (e : Entity) : Prop where
  parents : List.Forall₂ (StandsFor records origins) (listed value "Parents") e.parents
  interfaces : List.Forall₂ (StandsFor records origins) (listed value "Interfaces") e.interfaces

/-- Each entity has a record, the registered ones those at the top. All but the registered ones from
number `k` on have their relations, and what is not registered relates to what was made before. -/
structure Origins (records origins : List Json) (k : Nat) (g : Graph) : Prop where
  front : records <+: origins
  size : g.entities.size = origins.length
  shows : ∀ i value, origins[i]? = some value → i < k ∨ records.length ≤ i →
    Shows records origins value (g.entity i)
  earlier : ∀ i, records.length ≤ i → ∀ t ∈ (g.entity i).targets, t < i

theorem Origins.top (h : Origins records origins k g) (hi : records[i]? = some value) :
    origins[i]? = some value := by
  obtain ⟨rest, rfl⟩ := h.front
  rw [List.getElem?_append_left (List.getElem?_eq_some_iff.mp hi).1, hi]

theorem StandsFor.append (h : StandsFor records origins value i) (more : List Json) :
    StandsFor records (origins ++ more) value i := by
  cases h with
  | registered first => exact .registered first
  | apart unknown outside made =>
    refine .apart unknown outside ?_
    rw [List.getElem?_append_left (List.getElem?_eq_some_iff.mp made).1, made]

theorem StandsFor.lt (h : StandsFor records origins value i) (front : records <+: origins) :
    i < origins.length := by
  cases h with
  | registered first => exact Nat.lt_of_lt_of_le first.lt front.length_le
  | apart _ _ made => exact (List.getElem?_eq_some_iff.mp made).1

theorem Shows.append {e : Entity} (h : Shows records origins value e) (more : List Json) :
    Shows records (origins ++ more) value e where
  parents := h.parents.imp fun _ _ stands => stands.append more
  interfaces := h.interfaces.imp fun _ _ stands => stands.append more

theorem shows_of_unpack (unpacked : unpack value = .ok body)
    (extended : List.Forall₂ (StandsFor records origins) body.parents parents)
    (implemented : List.Forall₂ (StandsFor records origins) body.interfaces interfaces)
    {e : Entity} (he : e.parents = parents) (he' : e.interfaces = interfaces) :
    Shows records origins value e := by
  obtain ⟨listed, listed'⟩ := listed_of_unpack unpacked
  exact ⟨by rwa [listed, he], by rwa [listed', he']⟩

theorem lt_of_forall₂ (front : records <+: origins)
    (h : List.Forall₂ (StandsFor records origins) values is) (mem : i ∈ is) :
    i < origins.length := by
  obtain ⟨value, _, stands⟩ := exists_of_forall₂ h.flip mem
  exact stands.lt front

theorem size_create (g : Graph) (e : Entity) :
    (g.create e).1.entities.size = g.entities.size + 1 := Array.size_push e

/-- A record that refers to nothing at the top gets an entity. -/
theorem Origins.create (h : Origins records origins k g) (unpacked : unpack value = .ok body)
    (extended : List.Forall₂ (StandsFor records origins) body.parents parents)
    (implemented : List.Forall₂ (StandsFor records origins) body.interfaces interfaces) :
    Origins records (origins ++ [value]) k
      (g.create ⟨body.name, body.package, body.kind, parents, interfaces⟩).1 where
  front := h.front.trans (List.prefix_append _ _)
  size := by rw [size_create, h.size, List.length_append, List.length_singleton]
  shows i v hv settled := by
    rcases Nat.lt_or_ge i g.entities.size with lt | ge
    · rw [(grows_create g _).entity i lt]
      rw [List.getElem?_append_left (h.size ▸ lt)] at hv
      exact (h.shows i v hv settled).append _
    · have last : i = g.entities.size := by
        have := (List.getElem?_eq_some_iff.mp hv).1
        rw [List.length_append, List.length_singleton] at this
        have := h.size
        omega
      subst last
      rw [h.size, List.getElem?_concat_length] at hv
      cases hv
      rw [entity_create_self]
      exact shows_of_unpack unpacked (extended.imp fun _ _ stands => stands.append _)
        (implemented.imp fun _ _ stands => stands.append _) rfl rfl
  earlier i outside t mem := by
    rcases Nat.lt_trichotomy i g.entities.size with lt | rfl | gt
    · rw [(grows_create g _).entity i lt] at mem
      exact h.earlier i outside t mem
    · rw [entity_create_self] at mem
      rw [h.size]
      rcases List.mem_append.mp mem with mem | mem
      · exact lt_of_forall₂ h.front extended mem
      · exact lt_of_forall₂ h.front implemented mem
    · rw [Graph.entity_of_size_le (by rw [size_create]; exact gt)] at mem
      cases mem

/-- A list of records is bound to the entities that they stand for. -/
theorem BindsAll.exists_origins (h : BindsAll g values g' is) (headed : Headed records g)
    (made : Origins records origins k g) : ∃ more, Origins records (origins ++ more) k g' ∧
      List.Forall₂ (StandsFor records (origins ++ more)) values is := by
  induction h generalizing origins with
  | nil => exact ⟨[], by rwa [List.append_nil], .nil⟩
  | found unpacked denoted _ ih =>
    obtain ⟨more, made', stand⟩ := ih headed made
    exact ⟨more, made',
      .cons (.registered ((headed.denoted?_eq_some_iff unpacked).mp denoted)) stand⟩
  | @rebuilt g g₁ g₂ g' value _ body parents interfaces _ unpacked unknown extended implemented
      others ih₁ ih₂ ih₃ =>
    have headed₁ := headed.of_grows extended.grows
    have headed₂ := headed₁.of_grows implemented.grows
    obtain ⟨more₁, made₁, stand₁⟩ := ih₁ headed made
    obtain ⟨more₂, made₂, stand₂⟩ := ih₂ headed₁ made₁
    have created := made₂.create unpacked (stand₁.imp fun _ _ stands => stands.append more₂) stand₂
    obtain ⟨more₃, made₃, stand₃⟩ := ih₃ (headed₂.of_grows (grows_create _ _)) created
    -- the entity has its number, and its record its place, behind everything below it
    have here : StandsFor records (origins ++ more₁ ++ more₂ ++ [value]) value
        g₂.entities.size := by
      refine .apart ((headed.denoted?_eq_none_iff unpacked).mp unknown) headed₂.size ?_
      rw [made₂.size, List.getElem?_concat_length]
    refine ⟨more₁ ++ more₂ ++ [value] ++ more₃, ?_, ?_⟩
    · simpa only [List.append_assoc] using made₃
    · simpa only [List.append_assoc] using List.Forall₂.cons (here.append more₃) stand₃

theorem Origins.attach (h : Origins records origins k g) (hk : records[k]? = some value)
    (unpacked : unpack value = .ok body)
    (extended : List.Forall₂ (StandsFor records origins) body.parents parents)
    (implemented : List.Forall₂ (StandsFor records origins) body.interfaces interfaces) :
    Origins records origins (k + 1) (attach g k parents interfaces) where
  front := h.front
  size := size_attach.trans h.size
  shows i v hv settled := by
    have within := (List.getElem?_eq_some_iff.mp hk).1
    by_cases here : i = k
    · subst here
      rw [h.top hk] at hv
      cases hv
      rw [entity_attach_self (h.size ▸ Nat.lt_of_lt_of_le within h.front.length_le)]
      exact shows_of_unpack unpacked extended implemented rfl rfl
    · rw [entity_attach_of_ne here]
      exact h.shows i v hv (by omega)
  earlier i outside t mem := by
    have within := (List.getElem?_eq_some_iff.mp hk).1
    rw [entity_attach_of_ne (by omega)] at mem
    exact h.earlier i outside t mem

variable {bodies : List Body}

theorem origins_registryOf (h : unpackAll records = .ok bodies) :
    Origins records records 0 (registryOf bodies) := by
  have length := (forall₂_of_unpackAll h).length_eq
  have size : (registryOf bodies).entities.size = records.length := by
    simp [registryOf_eq, length]
  refine ⟨List.prefix_refl _, size, fun i v hv settled => ?_, fun i outside t mem => ?_⟩
  · have := (List.getElem?_eq_some_iff.mp hv).1
    omega
  · rw [Graph.entity_of_size_le (size ▸ outside)] at mem
    cases mem

theorem exists_origins_of_attachAll (h : attachAll g k bodies = .ok G) (headed : Headed records g)
    (made : Origins records origins k g)
    (tops : List.Forall₂ (fun value body => unpack value = .ok body) (records.drop k) bodies) :
    ∃ origins, Origins records origins records.length G := by
  induction bodies generalizing g k origins with
  | nil =>
    cases h
    have all : records.length ≤ k := List.drop_eq_nil_iff.mp (List.forall₂_nil_right_iff.mp tops)
    exact ⟨origins, made.front, made.size,
      fun i v hv settled => made.shows i v hv (by omega), made.earlier⟩
  | cons body rest ih =>
    obtain ⟨g₁, parents, g₂, interfaces, extended, implemented, others⟩ :=
      attachAll_cons_eq_ok_iff.mp h
    have extended := bindsAll_of_bindAll extended
    have implemented := bindsAll_of_bindAll implemented
    have headed₁ := headed.of_grows extended.grows
    obtain ⟨more₁, made₁, stand₁⟩ := extended.exists_origins headed made
    obtain ⟨more₂, made₂, stand₂⟩ := implemented.exists_origins headed₁ made₁
    obtain ⟨value, later, unpacked, tops, front⟩ := List.forall₂_cons_right_iff.mp tops
    have hk : records[k]? = some value := by
      rw [← List.head?_drop, front, List.head?_cons]
    have rest : records.drop (k + 1) = later := by rw [← List.tail_drop, front, List.tail_cons]
    exact ih others ((headed₁.of_grows implemented.grows).attach _ _ _)
      (made₂.attach hk unpacked (stand₁.imp fun _ _ stands => stands.append more₂) stand₂)
      (rest ▸ tops)

theorem exists_origins_of_ofTree (h : Graph.ofTree (.arr records) = .ok g) :
    ∃ origins, Origins records origins records.length g := by
  obtain ⟨_, bodies, ⟨⟩, unpacked, attached⟩ := ofTree_eq_ok_iff.mp h
  exact exists_origins_of_attachAll attached (headed_registryOf unpacked)
    (origins_registryOf unpacked) (forall₂_of_unpackAll unpacked)

/-! ## Ways through the graph and ways through the records -/

namespace Origins

/-- A relation of an entity is that of a record right below the entity's record. -/
theorem exists_below (h : Origins records origins records.length g) (related : g.RelatesTo i j) :
    ∃ value child, origins[i]? = some value ∧ Below child value ∧
      StandsFor records origins child j := by
  have within : i < origins.length := by
    by_contra outside
    rw [Graph.RelatesTo, Graph.entity_of_size_le (h.size ▸ Nat.le_of_not_lt outside)] at related
    cases related
  have hv := List.getElem?_eq_getElem within
  obtain ⟨extended, implemented⟩ := h.shows i _ hv (Nat.lt_or_ge i records.length)
  rcases List.mem_append.mp related with mem | mem
  · obtain ⟨child, below, stands⟩ := exists_of_forall₂ extended.flip mem
    exact ⟨_, child, hv, .inl below, stands⟩
  · obtain ⟨child, below, stands⟩ := exists_of_forall₂ implemented.flip mem
    exact ⟨_, child, hv, .inr below, stands⟩

/-- Right below the record of an entity stand records of entities that it relates to. -/
theorem exists_relatesTo (h : Origins records origins records.length g)
    (hv : origins[i]? = some value) {child : Json} (below : Below child value) :
    ∃ j, g.RelatesTo i j ∧ StandsFor records origins child j := by
  obtain ⟨extended, implemented⟩ := h.shows i _ hv (Nat.lt_or_ge i records.length)
  rcases below with mem | mem
  · obtain ⟨j, hj, stands⟩ := exists_of_forall₂ extended mem
    exact ⟨j, List.mem_append_left _ hj, stands⟩
  · obtain ⟨j, hj, stands⟩ := exists_of_forall₂ implemented mem
    exact ⟨j, List.mem_append_right _ hj, stands⟩

/-- What is read below a record at the top stands for an entity that is reached from there. -/
theorem exists_transGen_of_readBelow (h : Origins records origins records.length g) {top : Json}
    (ht : records[i]? = some top) (read : ReadBelow records top value) :
    ∃ j, Relation.TransGen g.RelatesTo i j ∧ StandsFor records origins value j := by
  induction read with
  | first below =>
    obtain ⟨j, related, stands⟩ := h.exists_relatesTo (h.top ht) below
    exact ⟨j, .single related, stands⟩
  | further _ unknown below ih =>
    obtain ⟨j, reach, stands⟩ := ih
    cases stands with
    | registered first => exact absurd unknown first.not_unknown
    | apart _ _ made =>
      obtain ⟨l, related, stands⟩ := h.exists_relatesTo made below
      exact ⟨l, reach.tail related, stands⟩

theorem transGen_of_comesTo (h : Origins records origins records.length g)
    (comes : ComesTo records i j) : Relation.TransGen g.RelatesTo i j := by
  obtain ⟨top, value, ht, read, first⟩ := comes
  obtain ⟨l, reach, stands⟩ := h.exists_transGen_of_readBelow ht read
  cases stands with
  | registered first' =>
    cases first.unique first'
    exact reach
  | apart unknown _ _ => exact absurd unknown first.not_unknown

/-- Where a way from a registered entity has got to: to a registered one, or to one whose record is
read below the record of the last registered one. -/
inductive Passes (records origins : List Json) (i j : Nat) : Prop where
  | registered (comes : Relation.TransGen (ComesTo records) i j)
  | apart {l : Nat} {top value : Json} (comes : Relation.ReflTransGen (ComesTo records) i l)
      (ht : records[l]? = some top) (read : ReadBelow records top value)
      (unknown : ∀ other ∈ records, ¬ RefersTo value other) (outside : records.length ≤ j)
      (made : origins[j]? = some value)

theorem passes_of_read {l : Nat} {top : Json}
    (comes : Relation.ReflTransGen (ComesTo records) i l) (ht : records[l]? = some top)
    (read : ReadBelow records top value) (stands : StandsFor records origins value j) :
    Passes records origins i j := by
  cases stands with
  | registered first => exact .registered (.tail' comes ⟨top, value, ht, read, first⟩)
  | apart unknown outside made => exact .apart comes ht read unknown outside made

theorem passes_of_transGen (h : Origins records origins records.length g)
    (registered : i < records.length) (reach : Relation.TransGen g.RelatesTo i j) :
    Passes records origins i j := by
  have from_registered {l m : Nat} (lt : l < records.length)
      (comes : Relation.ReflTransGen (ComesTo records) i l) (related : g.RelatesTo l m) :
      Passes records origins i m := by
    obtain ⟨value, child, hv, below, stands⟩ := h.exists_below related
    have ht := List.getElem?_eq_getElem lt
    cases (h.top ht).symm.trans hv
    exact passes_of_read comes ht (.first below) stands
  induction reach with
  | single related => exact from_registered registered .refl related
  | tail _ related ih =>
    cases ih with
    | registered comes =>
      -- what is read below this entity's record starts anew
      obtain ⟨l, _, top, value, _, _, first⟩ := Relation.TransGen.tail'_iff.mp comes
      exact from_registered first.lt comes.to_reflTransGen related
    | apart comes ht read unknown _ made =>
      obtain ⟨value, child, hv, below, stands⟩ := h.exists_below related
      cases made.symm.trans hv
      exact passes_of_read comes ht (.further read unknown below) stands

/-- Between registered entities, the ways through the graph are those through the records. -/
theorem transGen_iff (h : Origins records origins records.length g) (hi : i < records.length)
    (hj : j < records.length) :
    Relation.TransGen g.RelatesTo i j ↔ Relation.TransGen (ComesTo records) i j := by
  constructor
  · intro reach
    cases h.passes_of_transGen hi reach with
    | registered comes => exact comes
    | apart _ _ _ _ outside _ => exact absurd hj (Nat.not_lt_of_le outside)
  · intro comes
    induction comes with
    | single comes => exact h.transGen_of_comesTo comes
    | tail _ comes ih =>
      exact (ih comes.lt).trans (h.transGen_of_comesTo comes)

/-- A way that passes no registered entity leads to what was made before. -/
theorem lt_or_exists_registered (h : Origins records origins records.length g)
    (reach : Relation.TransGen g.RelatesTo i j) : j < i ∨ ∃ l < records.length,
      Relation.ReflTransGen g.RelatesTo i l ∧ Relation.TransGen g.RelatesTo l j := by
  -- the numbers fall along a way, except where it leaves a registered entity
  have step {l m : Nat} (related : g.RelatesTo l m) : m < l ∨ l < records.length := by
    rcases Nat.lt_or_ge l records.length with lt | ge
    · exact .inr lt
    · exact .inl (h.earlier l ge m related)
  induction reach with
  | single related =>
    rcases step related with lt | registered
    · exact .inl lt
    · exact .inr ⟨i, registered, .refl, .single related⟩
  | tail reach related ih =>
    rcases ih with lt | ⟨l, registered, before, behind⟩
    · rcases step related with lt' | registered
      · exact .inl (Nat.lt_trans lt' lt)
      · exact .inr ⟨_, registered, reach.to_reflTransGen, .single related⟩
    · exact .inr ⟨l, registered, before, behind.tail related⟩

/-- A cycle passes through the registry. -/
theorem exists_registered_of_cycle (h : Origins records origins records.length g)
    (cycle : Relation.TransGen g.RelatesTo i i) : ∃ l < records.length,
      Relation.ReflTransGen g.RelatesTo i l ∧ Relation.TransGen g.RelatesTo l l := by
  rcases h.lt_or_exists_registered cycle with lt | ⟨l, registered, before, behind⟩
  · exact absurd lt (Nat.lt_irrefl i)
  · exact ⟨l, registered, before, .trans_left behind before⟩

end Origins

/-- A registered entity of an imported graph reaches a cycle if and only if its record comes to one
at the top that comes back to itself. -/
theorem reachesCycle_iff (h : Graph.ofTree (.arr records) = .ok g) (hi : i < records.length) :
    g.ReachesCycle i ↔ ∃ j, Relation.ReflTransGen (ComesTo records) i j ∧
      Relation.TransGen (ComesTo records) j j := by
  obtain ⟨origins, made⟩ := exists_origins_of_ofTree h
  have ways {j : Nat} (hj : j < records.length) : Relation.ReflTransGen g.RelatesTo i j ↔
      Relation.ReflTransGen (ComesTo records) i j := by
    rw [Relation.reflTransGen_iff_eq_or_transGen, Relation.reflTransGen_iff_eq_or_transGen,
      made.transGen_iff hi hj]
  constructor
  · rintro ⟨j, reach, cycle⟩
    obtain ⟨l, registered, before, round⟩ := made.exists_registered_of_cycle cycle
    exact ⟨l, (ways registered).mp (reach.trans before),
      (made.transGen_iff registered registered).mp round⟩
  · rintro ⟨j, comes, round⟩
    have registered := lt_of_comes round
    exact ⟨j, (ways registered).mpr comes, (made.transGen_iff registered registered).mpr round⟩

/-- An imported graph has no tree if and only if a record at the top comes back to itself. -/
theorem exists_cycle_iff (h : Graph.ofTree (.arr records) = .ok g) :
    (∃ name, g.toTree = .error (.cycle name)) ↔
      ∃ i, Relation.TransGen (ComesTo records) i i := by
  have registry := (imported_of_ofTree h).registry
  constructor
  · rintro ⟨name, refused⟩
    obtain ⟨i, mem, j, reach, cycle, _⟩ := Graph.exists_cycle_of_toTree refused
    have hi := List.mem_range.mp (registry ▸ mem)
    obtain ⟨l, _, round⟩ := (reachesCycle_iff h hi).mp ⟨j, reach, cycle⟩
    exact ⟨l, round⟩
  · rintro ⟨i, round⟩
    have hi := lt_of_comes round
    exact Graph.toTree_of_reachesCycle (registry ▸ List.mem_range.mpr hi)
      ((reachesCycle_iff h hi).mpr ⟨i, .refl, round⟩)

end Tree

end ClassGraph
