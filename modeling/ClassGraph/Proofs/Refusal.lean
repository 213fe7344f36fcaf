import ClassGraph.Proofs.Binding

/-! # When an import is refused

An import reads the records at the top first and then, from each of them, what is
written below. It goes on below a record only where that record denotes no entity
of the registry. So one value may be read below one record and passed over below
another. An import is refused exactly where something that it reads is no record,
and one that is not refused has an entity for each record that it reads.
-/

namespace ClassGraph

namespace Tree

/-! ## Records as they are written -/

/-- What is wrong with a value that should be a record. -/
inductive Wrong : Json → TreeFault → Prop where
  | notRecord {value : Json} (shape : ∀ tag body, value ≠ .obj [(tag, body)]) :
      Wrong value (.notRecord value)
  | unknownTag {tag : Text} {body : Json} (unknown : ∀ kind : EntityKind, tag ≠ kind.tag) :
      Wrong (.obj [(tag, body)]) (.unknownTag tag)
  | missingName {tag : Text} {body : Json}
      (nameless : ∀ name, body.get? "Name" ≠ some (.str name)) :
      Wrong (.obj [(tag, body)]) (.missingName tag)
  | notList {tag name : Text} {body found : Json} {key : String}
      (named : body.get? "Name" = some (.str name)) (relation : key ∈ ["Parents", "Interfaces"])
      (present : body.get? key = some found) (other : ∀ items, found ≠ .arr items) :
      Wrong (.obj [(tag, body)]) (.notList key name)

def Malformed (value : Json) : Prop := ∃ fault, Wrong value fault

/-- A record says of its entity what it is. A package that is not given is an empty
text. -/
def Says (value : Json) (kind : EntityKind) (name : Text) (package : Json) : Prop :=
  ∃ body, value = .obj [(kind.tag, body)] ∧ body.get? "Name" = some (.str name) ∧
    package = (body.get? "Package").getD (.str "")

/-- The values in a list of a record. A list that is not given is empty. -/
def listed (value : Json) (key : String) : List Json :=
  match value with
  | .obj [(_, body)] =>
    match body.get? key with
    | some (.arr items) => items
    | _ => []
  | _ => []

/-- A record refers to the entity of a record at the top. -/
def RefersTo (value top : Json) : Prop := ∃ kind name package package',
  Says top kind name package ∧ Says value kind name package' ∧ package.same package' = true

/-- What stands right below a record. -/
def Below (value record : Json) : Prop :=
  value ∈ listed record "Parents" ∨ value ∈ listed record "Interfaces"

/-- What is read of a tree below its top: what stands right below a record at the
top, and what stands right below a record that is read and refers to none of them. -/
inductive Reached (records : List Json) : Json → Prop where
  | first {value top : Json} (mem : top ∈ records) (below : Below value top) :
      Reached records value
  | further {value record : Json} (reached : Reached records record) (formed : ¬ Malformed record)
      (unknown : ∀ top ∈ records, ¬ RefersTo record top) (below : Below value record) :
      Reached records value

variable {records values : List Json} {value : Json} {kind : EntityKind} {name : Text}
  {package : Json} {body : Body} {fault : TreeFault}

theorem Says.eq {kind' : EntityKind} {name' : Text} {package' : Json}
    (h : Says value kind name package) (h' : Says value kind' name' package') :
    kind = kind' ∧ name = name' ∧ package = package' := by
  obtain ⟨body, rfl, named, rfl⟩ := h
  obtain ⟨body', written, named', rfl⟩ := h'
  simp only [Json.obj.injEq, List.cons.injEq, Prod.mk.injEq, and_true] at written
  obtain ⟨tag, rfl⟩ := written
  have kinds := EntityKind.ofTag?_tag kind
  rw [tag, EntityKind.ofTag?_tag] at kinds
  exact ⟨(Option.some.inj kinds).symm, Json.str.inj (Option.some.inj (named.symm.trans named')),
    rfl⟩

theorem refersTo_iff (h : Says value kind name package) {top : Json} {kind' : EntityKind}
    {name' : Text} {package' : Json} (h' : Says top kind' name' package') :
    RefersTo value top ↔ name' = name ∧ package'.same package = true ∧ kind' = kind := by
  constructor
  · intro refers
    obtain ⟨_, _, _, _, said', said, same⟩ := refers
    obtain ⟨rfl, rfl, rfl⟩ := h.eq said
    obtain ⟨rfl, rfl, rfl⟩ := h'.eq said'
    exact ⟨rfl, same, rfl⟩
  · intro agree
    obtain ⟨rfl, same, rfl⟩ := agree
    exact ⟨_, _, _, _, h', h, same⟩

/-! ## Taking a record apart -/

theorem listed_obj (tag : Text) (members : List (Text × Json)) (key : String) :
    listed (.obj [(tag, .obj members)]) key =
      match members.lookup (key : Text) with
      | some (.arr items) => items
      | _ => [] := rfl

theorem listed_of_relationList {members : List (Text × Json)} {key : String} {items : List Json}
    (h : relationList members key name = .ok items) (tag : Text) :
    listed (.obj [(tag, .obj members)]) key = items := by
  rw [listed_obj]
  unfold relationList at h
  split at h <;> rename_i found
  · cases h
    rw [found]
  · cases h
    rw [found]
  · cases h

theorem relationList_eq_error_iff {members : List (Text × Json)} {key : String} :
    relationList members key name = .error fault ↔ fault = .notList key name ∧
      ∃ found, members.lookup (key : Text) = some found ∧ ∀ items, found ≠ .arr items := by
  unfold relationList
  split <;> rename_i found
  · simp [found]
  · simp [found]
  · rename_i value other
    simp only [Except.error.injEq, found, Option.some.injEq, exists_eq_left', eq_comm (a := fault),
      iff_self_and]
    rintro _ items rfl
    exact other items rfl

theorem said_of_unpack (h : unpack value = .ok body) :
    Says value body.kind body.name body.package := by
  obtain ⟨members, rfl, named, package, _⟩ := exists_members_of_unpack h
  exact ⟨.obj members, rfl, named, package⟩

theorem listed_of_unpack (h : unpack value = .ok body) :
    listed value "Parents" = body.parents ∧ listed value "Interfaces" = body.interfaces := by
  obtain ⟨members, rfl, _, _, extended, implemented⟩ := exists_members_of_unpack h
  exact ⟨listed_of_relationList extended _, listed_of_relationList implemented _⟩

/-- What keeps a value from being taken apart is wrong with it. -/
theorem wrong_of_unpack (h : unpack value = .error fault) : Wrong value fault := by
  unfold unpack at h
  split at h
  · split at h
    · rename_i tag _ unknown
      cases h
      refine .unknownTag fun kind he => ?_
      rw [he, EntityKind.ofTag?_tag] at unknown
      cases unknown
    · split at h
      · split at h
        · rename_i members _ name named
          split at h
          · rename_i extended
            cases h
            obtain ⟨rfl, found, present, other⟩ := relationList_eq_error_iff.mp extended
            exact .notList named (by simp) present other
          · split at h
            · rename_i implemented
              cases h
              obtain ⟨rfl, found, present, other⟩ := relationList_eq_error_iff.mp implemented
              exact .notList named (by simp) present other
            · cases h
        · rename_i nameless
          cases h
          exact .missingName nameless
      · rename_i plain
        cases h
        refine .missingName fun name named => ?_
        unfold Json.get? at named
        split at named
        · exact plain _ rfl
        · cases named
  · rename_i shape
    cases h
    exact .notRecord fun tag body => shape tag body

theorem Wrong.unpack_ne (h : Wrong value fault) : unpack value ≠ .ok body := by
  intro unpacked
  obtain ⟨members, written, named, _, extended, implemented⟩ := exists_members_of_unpack unpacked
  cases h with
  | notRecord shape => exact shape _ _ written
  | unknownTag unknown =>
    cases written
    exact unknown _ rfl
  | missingName nameless =>
    cases written
    exact nameless _ named
  | notList _ relation present other =>
    cases written
    have refused : relationList members _ body.name = .error _ :=
      relationList_eq_error_iff.mpr ⟨rfl, _, present, other⟩
    rcases List.mem_pair.mp relation with rfl | rfl
    · rw [extended] at refused
      cases refused
    · rw [implemented] at refused
      cases refused

theorem malformed_iff : Malformed value ↔ ∀ body, unpack value ≠ .ok body := by
  constructor
  · intro malformed body
    obtain ⟨fault, wrong⟩ := malformed
    exact wrong.unpack_ne
  · intro refused
    cases h : unpack value with
    | ok body => exact absurd h (refused body)
    | error fault => exact ⟨fault, wrong_of_unpack h⟩

theorem not_malformed_of_unpack (h : unpack value = .ok body) : ¬ Malformed value :=
  fun malformed => malformed_iff.mp malformed body h

theorem below_iff (h : unpack value = .ok body) {child : Json} :
    Below child value ↔ child ∈ body.parents ∨ child ∈ body.interfaces := by
  obtain ⟨extended, implemented⟩ := listed_of_unpack h
  unfold Below
  rw [extended, implemented]

/-! ## Looking up what a record refers to -/

/-- The registry holds the entities of the records at the top, in their order. -/
structure Headed (records : List Json) (g : Graph) : Prop where
  registry : g.registry = List.range records.length
  size : records.length ≤ g.entities.size
  said : ∀ i top, records[i]? = some top →
    Says top (g.entity i).bare.kind (g.entity i).bare.name (g.entity i).bare.package

/-- The first record at the top that a record refers to has this number. -/
structure First (records : List Json) (value : Json) (i : Nat) : Prop where
  here : ∃ top, records[i]? = some top ∧ RefersTo value top
  before : ∀ j < i, ∀ top, records[j]? = some top → ¬ RefersTo value top

variable {g g' : Graph} {i : Nat} {is : List Nat}

theorem Headed.denotes_iff (h : Headed records g) (unpacked : unpack value = .ok body) {top : Json}
    (ht : records[i]? = some top) : ((g.entity i).name == body.name &&
      (g.entity i).package.same body.package && (g.entity i).kind == body.kind) = true ↔
        RefersTo value top := by
  rw [refersTo_iff (said_of_unpack unpacked) (h.said i top ht)]
  simp [Entity.bare, and_assoc]

theorem Headed.denoted?_eq_some_iff (h : Headed records g) (unpacked : unpack value = .ok body) :
    denoted? g body = some i ↔ First records value i := by
  unfold denoted?
  rw [h.registry, List.find?_range_eq_some]
  constructor
  · intro found
    obtain ⟨here, hi, before⟩ := found
    have ht := List.getElem?_eq_getElem (List.mem_range.mp hi)
    refine ⟨⟨_, ht, (h.denotes_iff unpacked ht).mp here⟩, fun j hj top ht refers => ?_⟩
    have missed := before j hj
    rw [(h.denotes_iff unpacked ht).mpr refers] at missed
    cases missed
  · intro first
    obtain ⟨⟨top, ht, refers⟩, before⟩ := first
    have hi := (List.getElem?_eq_some_iff.mp ht).1
    refine ⟨(h.denotes_iff unpacked ht).mpr refers, List.mem_range.mpr hi, fun j hj => ?_⟩
    rw [Bool.not_eq_true', ← Bool.not_eq_true]
    intro found
    have hl := List.getElem?_eq_getElem (Nat.lt_trans hj hi)
    exact before j hj _ hl ((h.denotes_iff unpacked hl).mp found)

theorem Headed.denoted?_eq_none_iff (h : Headed records g) (unpacked : unpack value = .ok body) :
    denoted? g body = none ↔ ∀ top ∈ records, ¬ RefersTo value top := by
  unfold denoted?
  rw [h.registry, List.find?_eq_none]
  constructor
  · intro missed top mem refers
    obtain ⟨j, hj, rfl⟩ := List.getElem_of_mem mem
    exact missed j (List.mem_range.mpr hj)
      ((h.denotes_iff unpacked (List.getElem?_eq_getElem hj)).mpr refers)
  · intro unknown j hj found
    have ht := List.getElem?_eq_getElem (List.mem_range.mp hj)
    exact unknown _ (List.getElem_mem _) ((h.denotes_iff unpacked ht).mp found)

theorem Headed.of_grows (h : Headed records g) (grows : Grows g g') : Headed records g' where
  registry := grows.registry.trans h.registry
  size := Nat.le_trans h.size grows.size
  said i top ht := by
    have hi := (List.getElem?_eq_some_iff.mp ht).1
    rw [grows.entity i (Nat.lt_of_lt_of_le hi h.size)]
    exact h.said i top ht

theorem Headed.attach (h : Headed records g) (k : Nat) (parents interfaces : List Nat) :
    Headed records (attach g k parents interfaces) where
  registry := h.registry
  size := size_attach.symm ▸ h.size
  said i top ht := by
    have hi := (List.getElem?_eq_some_iff.mp ht).1
    rw [bare_attach (Nat.lt_of_lt_of_le hi h.size)]
    exact h.said i top ht

theorem headed_registryOf {bodies : List Body} (h : unpackAll records = .ok bodies) :
    Headed records (registryOf bodies) := by
  have unpacked := forall₂_of_unpackAll h
  refine ⟨?_, ?_, fun i top ht => ?_⟩
  · rw [registryOf_eq, unpacked.length_eq]
  · simp [registryOf_eq, unpacked.length_eq]
  · obtain ⟨hi, rfl⟩ := List.getElem?_eq_some_iff.mp ht
    have hb := List.getElem?_eq_getElem (unpacked.length_eq ▸ hi)
    rw [entity_registryOf hb]
    exact said_of_unpack (unpacked.get hi (unpacked.length_eq ▸ hi))

/-! ## What is read without a fault -/

/-- A list of records is bound in the course of an import. -/
def Bound (records values : List Json) : Prop :=
  ∃ g g' is, Headed records g ∧ BindsAll g values g' is

/-- A record is taken apart, and the lists below it are bound unless it refers to a
record at the top. -/
def Read (records : List Json) (value : Json) : Prop := ∃ body, unpack value = .ok body ∧
  ((∀ top ∈ records, ¬ RefersTo value top) →
    Bound records body.parents ∧ Bound records body.interfaces)

theorem BindsAll.read (h : BindsAll g values g' is) (headed : Headed records g)
    (mem : value ∈ values) : Read records value := by
  induction h with
  | nil => cases mem
  | @found g g' _ _ body _ _ unpacked denoted _ ih =>
    rcases List.mem_cons.mp mem with rfl | mem
    · refine ⟨body, unpacked, fun unknown => ?_⟩
      rw [(headed.denoted?_eq_none_iff unpacked).mpr unknown] at denoted
      cases denoted
    · exact ih headed mem
  | @rebuilt g g₁ g₂ g' _ _ body _ _ _ unpacked _ extended implemented _ _ _ ih =>
    have headed₁ := headed.of_grows extended.grows
    have headed₂ := headed₁.of_grows implemented.grows
    rcases List.mem_cons.mp mem with rfl | mem
    · exact ⟨body, unpacked, fun _ =>
        ⟨⟨g, g₁, _, headed, extended⟩, g₁, g₂, _, headed₁, implemented⟩⟩
    · exact ih (headed₂.of_grows (grows_create _ _)) mem

theorem read_of_below (unpacked : unpack value = .ok body) (parents : Bound records body.parents)
    (interfaces : Bound records body.interfaces) {child : Json} (below : Below child value) :
    Read records child := by
  rcases (below_iff unpacked).mp below with mem | mem
  · obtain ⟨_, _, _, headed, extended⟩ := parents
    exact extended.read headed mem
  · obtain ⟨_, _, _, headed, implemented⟩ := interfaces
    exact implemented.read headed mem

variable {k : Nat} {bodies : List Body} {G : Graph}

theorem bound_of_attachAll (h : attachAll g k bodies = .ok G) (headed : Headed records g)
    (mem : body ∈ bodies) : Bound records body.parents ∧ Bound records body.interfaces := by
  induction bodies generalizing g k with
  | nil => cases mem
  | cons first rest ih =>
    obtain ⟨g₁, parents, g₂, interfaces, extended, implemented, others⟩ :=
      attachAll_cons_eq_ok_iff.mp h
    have extended := bindsAll_of_bindAll extended
    have implemented := bindsAll_of_bindAll implemented
    have headed₁ := headed.of_grows extended.grows
    rcases List.mem_cons.mp mem with rfl | mem
    · exact ⟨⟨g, g₁, _, headed, extended⟩, g₁, g₂, _, headed₁, implemented⟩
    · exact ih others ((headed₁.of_grows implemented.grows).attach _ _ _) mem

/-- Whatever is reached in an import that succeeds can be taken apart. -/
theorem Reached.read (h : Reached records value) (unpacked : unpackAll records = .ok bodies)
    (attached : attachAll (registryOf bodies) 0 bodies = .ok G) : Read records value := by
  induction h with
  | first mem below =>
    obtain ⟨j, hj, rfl⟩ := List.getElem_of_mem mem
    have tops := forall₂_of_unpackAll unpacked
    have hj' := tops.length_eq ▸ hj
    obtain ⟨extended, implemented⟩ := bound_of_attachAll attached (headed_registryOf unpacked)
      (List.getElem_mem hj')
    exact read_of_below (tops.get hj hj') extended implemented below
  | further _ _ unknown below ih =>
    obtain ⟨body, apart, bound⟩ := ih
    exact read_of_below apart (bound unknown).1 (bound unknown).2 below

/-! ## What is read with a fault -/

/-- A list that cannot be bound leads to a record with the fault that is reported. -/
theorem exists_of_bindAll_error (h : bindAll g values = .error fault) (headed : Headed records g)
    (reached : ∀ value ∈ values, Reached records value) :
    ∃ value, Reached records value ∧ Wrong value fault := by
  induction hn : sizeOf values using Nat.strongRecOn generalizing g values with
  | ind n ih =>
    cases values with
    | nil =>
      rw [bindAll] at h
      cases h
    | cons value rest =>
      rw [List.cons.sizeOf_spec] at hn
      obtain ⟨here, later⟩ := List.forall_mem_cons.mp reached
      rw [bindAll] at h
      split at h
      · rename_i failed
        cases h
        rw [bind] at failed
        split at failed
        · rename_i wrong
          cases failed
          exact ⟨value, here, wrong_of_unpack wrong⟩
        rename_i body unpacked
        have smaller := sizeOf_unpack unpacked
        split at failed
        · cases failed
        rename_i unknown
        have through {child : Json} (mem : child ∈ body.parents ∨ child ∈ body.interfaces) :
            Reached records child :=
          .further here (not_malformed_of_unpack unpacked)
            ((headed.denoted?_eq_none_iff unpacked).mp unknown) ((below_iff unpacked).mpr mem)
        split at failed
        · rename_i stopped
          cases failed
          exact ih _ (by omega) stopped headed (fun child mem => through (.inl mem)) rfl
        rename_i extended
        split at failed
        · rename_i stopped
          cases failed
          exact ih _ (by omega) stopped (headed.of_grows (bindsAll_of_bindAll extended).grows)
            (fun child mem => through (.inr mem)) rfl
        · cases failed
      · rename_i g₁ i bound
        split at h
        · rename_i stopped
          cases h
          have single : bindAll g [value] = .ok (g₁, [i]) := by
            rw [bindAll, bound]
            simp only [bindAll]
          exact ih _ (by omega) stopped (headed.of_grows (bindsAll_of_bindAll single).grows) later
            rfl
        · cases h

theorem exists_of_attachAll_error (h : attachAll g k bodies = .error fault)
    (headed : Headed records g) (tops : ∀ body ∈ bodies, ∃ top ∈ records, unpack top = .ok body) :
    ∃ value, Reached records value ∧ Wrong value fault := by
  induction bodies generalizing g k with
  | nil => cases h
  | cons body rest ih =>
    obtain ⟨⟨top, mem, unpacked⟩, later⟩ := List.forall_mem_cons.mp tops
    have through {child : Json} (below : child ∈ body.parents ∨ child ∈ body.interfaces) :
        Reached records child := .first mem ((below_iff unpacked).mpr below)
    rw [attachAll] at h
    split at h
    · rename_i stopped
      cases h
      exact exists_of_bindAll_error stopped headed fun child mem => through (.inl mem)
    rename_i extended
    have headed₁ := headed.of_grows (bindsAll_of_bindAll extended).grows
    split at h
    · rename_i stopped
      cases h
      exact exists_of_bindAll_error stopped headed₁ fun child mem => through (.inr mem)
    rename_i implemented
    exact ih h ((headed₁.of_grows (bindsAll_of_bindAll implemented).grows).attach _ _ _) later

theorem exists_of_unpackAll_error (h : unpackAll values = .error fault) :
    ∃ value ∈ values, Wrong value fault := by
  induction values with
  | nil => cases h
  | cons value rest ih =>
    rw [unpackAll] at h
    split at h
    · rename_i wrong
      cases h
      exact ⟨value, List.mem_cons_self, wrong_of_unpack wrong⟩
    · split at h
      · rename_i stopped
        cases h
        obtain ⟨other, mem, wrong⟩ := ih stopped
        exact ⟨other, List.mem_cons_of_mem _ mem, wrong⟩
      · cases h

/-! ## What comes of an import that succeeds -/

/-- The entity that a record leads to: the registered one of the first record at
the top that it refers to, or one of its own outside the registry. -/
inductive LeadsTo (records : List Json) (g : Graph) (value : Json) (i : Nat) : Prop where
  | registered (first : First records value i)
  | apart (unknown : ∀ top ∈ records, ¬ RefersTo value top) (outside : i ∉ g.registry)
      (lt : i < g.entities.size)
      (said : Says value (g.entity i).bare.kind (g.entity i).bare.name (g.entity i).bare.package)

/-- A graph that has all entities of another one, with other relations perhaps. -/
structure Lasts (g G : Graph) : Prop where
  registry : G.registry = g.registry
  size : g.entities.size ≤ G.entities.size
  bare : ∀ i < g.entities.size, (G.entity i).bare = (g.entity i).bare

theorem Grows.lasts (h : Grows g g') : Lasts g g' :=
  ⟨h.registry, h.size, fun i hi => congrArg Entity.bare (h.entity i hi)⟩

theorem lasts_attach (g : Graph) (k : Nat) (parents interfaces : List Nat) :
    Lasts g (attach g k parents interfaces) :=
  ⟨rfl, Nat.le_of_eq size_attach.symm, fun _ hi => bare_attach hi⟩

theorem Lasts.trans {g₁ g₂ g₃ : Graph} (h : Lasts g₁ g₂) (h' : Lasts g₂ g₃) : Lasts g₁ g₃ where
  registry := h'.registry.trans h.registry
  size := Nat.le_trans h.size h'.size
  bare i hi := (h'.bare i (Nat.lt_of_lt_of_le hi h.size)).trans (h.bare i hi)

theorem Lasts.leadsTo (h : Lasts g G) (leads : LeadsTo records g value i) :
    LeadsTo records G value i := by
  cases leads with
  | registered first => exact .registered first
  | apart unknown outside lt said =>
    refine .apart unknown (h.registry ▸ outside) (Nat.lt_of_lt_of_le lt h.size) ?_
    rw [h.bare i lt]
    exact said

theorem lasts_of_attachAll (h : attachAll g k bodies = .ok G) : Lasts g G := by
  induction bodies generalizing g k with
  | nil =>
    cases h
    exact (Grows.refl _).lasts
  | cons body rest ih =>
    obtain ⟨g₁, _, g₂, _, extended, implemented, others⟩ := attachAll_cons_eq_ok_iff.mp h
    have grows := (bindsAll_of_bindAll extended).grows.trans (bindsAll_of_bindAll implemented).grows
    exact (grows.lasts.trans (lasts_attach g₂ k _ _)).trans (ih others)

theorem BindsAll.leadsTo (h : BindsAll g values g' is) (headed : Headed records g) :
    List.Forall₂ (LeadsTo records g') values is := by
  induction h with
  | nil => exact .nil
  | found unpacked denoted _ ih =>
    exact .cons (.registered ((headed.denoted?_eq_some_iff unpacked).mp denoted)) (ih headed)
  | @rebuilt g g₁ g₂ g' value _ body parents interfaces _ unpacked unknown extended implemented
      others _ _ ih =>
    have headed₂ := (headed.of_grows extended.grows).of_grows implemented.grows
    have created : LeadsTo records
        (g₂.create ⟨body.name, body.package, body.kind, parents, interfaces⟩).1 value
        g₂.entities.size := by
      refine .apart ((headed.denoted?_eq_none_iff unpacked).mp unknown) ?_ ?_ ?_
      · show g₂.entities.size ∉ g₂.registry
        rw [headed₂.registry, List.mem_range]
        exact Nat.not_lt_of_le headed₂.size
      · simp [Graph.create]
      · rw [entity_create_self]
        exact said_of_unpack unpacked
    exact .cons (others.grows.lasts.leadsTo created) (ih (headed₂.of_grows (grows_create _ _)))

theorem leadsTo_of_attachAll (h : attachAll g k bodies = .ok G) (headed : Headed records g)
    (fits : k + bodies.length ≤ records.length) (hi : bodies[i]? = some body) :
    List.Forall₂ (LeadsTo records G) body.parents (G.entity (k + i)).parents ∧
      List.Forall₂ (LeadsTo records G) body.interfaces (G.entity (k + i)).interfaces := by
  induction bodies generalizing g k i with
  | nil => cases hi
  | cons first rest ih =>
    obtain ⟨g₁, parents, g₂, interfaces, extended, implemented, others⟩ :=
      attachAll_cons_eq_ok_iff.mp h
    have extended := bindsAll_of_bindAll extended
    have implemented := bindsAll_of_bindAll implemented
    have headed₁ := headed.of_grows extended.grows
    have headed₂ := headed₁.of_grows implemented.grows
    rw [List.length_cons] at fits
    cases i with
    | succ i =>
      have later := ih others (headed₂.attach _ _ _) (by omega) hi
      rwa [Nat.add_assoc, Nat.add_comm 1 i] at later
    | zero =>
      cases hi
      have lasts := (lasts_attach g₂ k parents interfaces).trans (lasts_of_attachAll others)
      have settles := settles_of_attachAll others fun j _ hj => by
        show j ∈ g₂.registry
        rw [headed₂.registry, List.mem_range]
        omega
      -- the entity has its relations from here on
      have done := settles.done k (by rw [size_attach]; have := headed₂.size; omega)
        (.inl (Nat.lt_succ_self k))
      rw [entity_attach_self (by have := headed₂.size; omega)] at done
      rw [Nat.add_zero, done]
      exact ⟨(extended.leadsTo headed).imp fun _ _ leads =>
          (implemented.grows.lasts.trans lasts).leadsTo leads,
        (implemented.leadsTo headed₁).imp fun _ _ leads => lasts.leadsTo leads⟩

/-! ## The outcome of an import -/

theorem exists_of_ofTree_error {e : DiagramError} (h : Graph.ofTree (.arr records) = .error e) :
    ∃ fault, e = .tree fault ∧ ∃ value, (value ∈ records ∨ Reached records value) ∧
      Wrong value fault := by
  unfold Graph.ofTree at h
  simp only at h
  split at h
  · rename_i fault stopped
    cases h
    obtain ⟨value, mem, wrong⟩ := exists_of_unpackAll_error stopped
    exact ⟨fault, rfl, value, .inl mem, wrong⟩
  rename_i bodies unpacked
  split at h
  · rename_i fault stopped
    cases h
    have tops := forall₂_of_unpackAll unpacked
    obtain ⟨value, reached, wrong⟩ := exists_of_attachAll_error stopped
      (headed_registryOf unpacked) fun body mem => by
        obtain ⟨j, hj, rfl⟩ := List.getElem_of_mem mem
        have hj' := tops.length_eq.symm ▸ hj
        exact ⟨records[j], List.getElem_mem hj', tops.get hj' hj⟩
    exact ⟨fault, rfl, value, .inr reached, wrong⟩
  · cases h

theorem not_malformed_of_ofTree (h : Graph.ofTree (.arr records) = .ok g)
    (mem : value ∈ records ∨ Reached records value) : ¬ Malformed value := by
  obtain ⟨_, bodies, ⟨⟩, unpacked, attached⟩ := ofTree_eq_ok_iff.mp h
  rcases mem with mem | reached
  · obtain ⟨j, hj, rfl⟩ := List.getElem_of_mem mem
    have tops := forall₂_of_unpackAll unpacked
    exact not_malformed_of_unpack (tops.get hj (tops.length_eq ▸ hj))
  · obtain ⟨body, unpacked, _⟩ := reached.read unpacked attached
    exact not_malformed_of_unpack unpacked

theorem ofTree_of_ne_arr {tree : Json} (h : ∀ records, tree ≠ .arr records) :
    Graph.ofTree tree = .error (.tree .notArray) := by
  unfold Graph.ofTree
  split
  · exact absurd rfl (h _)
  · rfl

/-- What an import makes of the records at the top: an entity for each in their
order, and as many relations as they list. -/
structure Imported (records : List Json) (g : Graph) : Prop where
  registry : g.registry = List.range records.length
  size : records.length ≤ g.entities.size
  said : ∀ i value, records[i]? = some value →
    Says value (g.entity i).kind (g.entity i).name (g.entity i).package
  parents : ∀ i value, records[i]? = some value →
    List.Forall₂ (LeadsTo records g) (listed value "Parents") (g.entity i).parents
  interfaces : ∀ i value, records[i]? = some value →
    List.Forall₂ (LeadsTo records g) (listed value "Interfaces") (g.entity i).interfaces

theorem imported_of_ofTree (h : Graph.ofTree (.arr records) = .ok g) : Imported records g := by
  obtain ⟨_, bodies, ⟨⟩, unpacked, attached⟩ := ofTree_eq_ok_iff.mp h
  have tops := forall₂_of_unpackAll unpacked
  have headed := headed_registryOf unpacked
  have lasts := lasts_of_attachAll attached
  have body {i : Nat} {value : Json} (hv : records[i]? = some value) :
      ∃ body, bodies[i]? = some body ∧ unpack value = .ok body := by
    obtain ⟨hi, rfl⟩ := List.getElem?_eq_some_iff.mp hv
    have hi' := tops.length_eq ▸ hi
    exact ⟨bodies[i], List.getElem?_eq_getElem hi', tops.get hi hi'⟩
  have fits : 0 + bodies.length ≤ records.length := by rw [Nat.zero_add, tops.length_eq]
  refine ⟨lasts.registry.trans headed.registry, Nat.le_trans headed.size lasts.size, ?_, ?_, ?_⟩
  · intro i value hv
    have said := headed.said i value hv
    have within := Nat.lt_of_lt_of_le (List.getElem?_eq_some_iff.mp hv).1 headed.size
    rwa [← lasts.bare i within] at said
  · intro i value hv
    obtain ⟨body, hb, apart⟩ := body hv
    rw [(listed_of_unpack apart).1, ← Nat.zero_add i]
    exact (leadsTo_of_attachAll attached headed fits hb).1
  · intro i value hv
    obtain ⟨body, hb, apart⟩ := body hv
    rw [(listed_of_unpack apart).2, ← Nat.zero_add i]
    exact (leadsTo_of_attachAll attached headed fits hb).2

end Tree

/-- An import is refused exactly for what is wrong with a record that it reads. It
reads every record at the top, and what is written below a record unless that one
refers to a record at the top. Where it is not refused, the registry shows the
records at the top in their order, and each record in one of their lists leads to
an entity of its own kind, name and package. -/
theorem ofTree_refuses_iff (tree : Json) :
    ((∃ fault, Graph.ofTree tree = .error (.tree fault)) ↔
      (∀ records, tree ≠ .arr records) ∨ ∃ records, tree = .arr records ∧
        ((∃ top ∈ records, Tree.Malformed top) ∨
          ∃ value, Tree.Reached records value ∧ Tree.Malformed value)) ∧
    (∀ e, Graph.ofTree tree = .error e → e.label = "TreeFormatError" ∧ ∃ fault, e = .tree fault ∧
      ((fault = .notArray ∧ ∀ records, tree ≠ .arr records) ∨
        ∃ records value, tree = .arr records ∧ (value ∈ records ∨ Tree.Reached records value) ∧
          Tree.Wrong value fault)) ∧
    ∀ g, Graph.ofTree tree = .ok g →
      ∃ records, tree = .arr records ∧ Tree.Imported records g := by
  by_cases array : ∃ records, tree = .arr records
  · obtain ⟨records, rfl⟩ := array
    refine ⟨⟨fun refused => ?_, fun reason => ?_⟩, fun e refused => ?_, fun g imported => ?_⟩
    · obtain ⟨fault, refused⟩ := refused
      obtain ⟨_, _, value, mem | reached, wrong⟩ := Tree.exists_of_ofTree_error refused
      · exact .inr ⟨records, rfl, .inl ⟨value, mem, _, wrong⟩⟩
      · exact .inr ⟨records, rfl, .inr ⟨value, reached, _, wrong⟩⟩
    · cases h : Graph.ofTree (.arr records) with
      | error e =>
        obtain ⟨fault, rfl, _⟩ := Tree.exists_of_ofTree_error h
        exact ⟨fault, rfl⟩
      | ok g =>
        obtain ⟨_, ⟨⟩, reason⟩ := reason.resolve_left fun other => other records rfl
        rcases reason with ⟨top, mem, malformed⟩ | ⟨value, reached, malformed⟩
        · exact absurd malformed (Tree.not_malformed_of_ofTree h (.inl mem))
        · exact absurd malformed (Tree.not_malformed_of_ofTree h (.inr reached))
    · obtain ⟨fault, rfl, value, mem, wrong⟩ := Tree.exists_of_ofTree_error refused
      exact ⟨rfl, fault, rfl, .inr ⟨records, value, rfl, mem, wrong⟩⟩
    · exact ⟨records, rfl, Tree.imported_of_ofTree imported⟩
  · have other := not_exists.mp array
    have refused := Tree.ofTree_of_ne_arr other
    refine ⟨⟨fun _ => .inl other, fun _ => ⟨_, refused⟩⟩, fun e failed => ?_, fun g imported => ?_⟩
    · cases refused.symm.trans failed
      exact ⟨rfl, .notArray, rfl, .inl ⟨rfl, other⟩⟩
    · cases refused.symm.trans imported

/-- What is no record is passed over below a record that refers to the top, and
refused below another one. -/
theorem ofTree_refuses_iff_read : ∃ (hidden shown : Json) (g : Graph),
    hidden = .arr [.obj [("class", .obj [("Name", .str "A"), ("Parents", .arr [
      .obj [("class", .obj [("Name", .str "A"), ("Parents", .arr [.null])])]])])]] ∧
    shown = .arr [.obj [("class", .obj [("Name", .str "A"), ("Parents", .arr [
      .obj [("class", .obj [("Name", .str "B"), ("Parents", .arr [.null])])]])])]] ∧
    Graph.ofTree hidden = .ok g ∧ (g.entity 0).parents.length = 1 ∧
    ∃ fault, Graph.ofTree shown = .error (.tree fault) := by
  let inner (name : Text) : Json :=
    .obj [("class", .obj [("Name", .str name), ("Parents", .arr [.null])])]
  let outer (name : Text) : Json :=
    .obj [("class", .obj [("Name", .str "A"), ("Parents", .arr [inner name])])]
  have top (name : Text) : Tree.unpack (outer name) =
      .ok ⟨.concrete, "A", .str "", [inner name], []⟩ := rfl
  have apart (name : Text) : Tree.unpack (inner name) =
      .ok ⟨.concrete, name, .str "", [.null], []⟩ := rfl
  have refers (name : Text) : Tree.RefersTo (inner name) (outer name) ↔ "A" = name := by
    rw [Tree.refersTo_iff (Tree.said_of_unpack (apart name)) (Tree.said_of_unpack (top name))]
    simp [Json.same]
  have first (name : Text) : Tree.Reached [outer name] (inner name) :=
    .first List.mem_cons_self ((Tree.below_iff (top name)).mpr (.inl List.mem_cons_self))
  have null : Tree.Malformed .null := ⟨_, .notRecord fun _ _ h => by cases h⟩
  obtain ⟨-, only, made⟩ := ofTree_refuses_iff (.arr [outer "A"])
  obtain ⟨g, imported⟩ : ∃ g, Graph.ofTree (.arr [outer "A"]) = .ok g := by
    cases h : Graph.ofTree (.arr [outer "A"]) with
    | ok g => exact ⟨g, rfl⟩
    | error e =>
      -- only the inner record is read below the top
      have inside {value : Json} (reached : Tree.Reached [outer "A"] value) :
          value = inner "A" := by
        induction reached with
        | first mem below =>
          rw [List.mem_singleton.mp mem, Tree.below_iff (top "A")] at below
          simpa using below
        | further _ _ unknown _ ih =>
          subst ih
          exact absurd ((refers "A").mpr rfl) (unknown _ List.mem_cons_self)
      obtain ⟨_, _, _, ⟨_, other⟩ | ⟨records, value, ⟨⟩, mem, wrong⟩⟩ := only e h
      · exact absurd rfl (other _)
      · rcases mem with mem | reached
        · rw [List.mem_singleton.mp mem] at wrong
          exact absurd (top "A") wrong.unpack_ne
        · rw [inside reached] at wrong
          exact absurd (apart "A") wrong.unpack_ne
  obtain ⟨_, ⟨⟩, shape⟩ := made g imported
  have parents := (shape.parents 0 (outer "A") rfl).length_eq
  refine ⟨.arr [outer "A"], .arr [outer "B"], g, rfl, rfl, imported, parents.symm, ?_⟩
  refine (ofTree_refuses_iff _).1.mpr (.inr ⟨_, rfl, .inr ⟨.null, ?_, null⟩⟩)
  refine .further (first "B") (Tree.not_malformed_of_unpack (apart "B")) ?_
    ((Tree.below_iff (apart "B")).mpr (.inl List.mem_cons_self))
  intro record mem
  rw [List.mem_singleton.mp mem, refers]
  decide

end ClassGraph
