import ClassGraph.Tree.Export
import Mathlib.Data.List.Forall2
import Mathlib.Logic.Relation

/-! # An entity has a tree unless it reaches a cycle

The way down to an entity is remembered while a tree is written, and an entity
on that way is refused. This refuses the cycles and nothing else: an entity that
is met on two separate ways is written out twice, and one that can reach itself
is met on its own way sooner or later, however deep below the start it lies. On
the other side a complete tree has no room for a cycle, since every record in it
is smaller than the one above.
-/

namespace ClassGraph

namespace Graph

/-- Some relation leads from an entity to another. -/
def RelatesTo (g : Graph) (i j : Nat) : Prop := j ∈ (g.entity i).targets

/-- An entity that can be reached, over no relation or more, reaches itself over
at least one. -/
def ReachesCycle (g : Graph) (i : Nat) : Prop :=
  ∃ j, Relation.ReflTransGen g.RelatesTo i j ∧ Relation.TransGen g.RelatesTo j j

end Graph

/-- A record shows an entity in full: its kind, name and package, and below them
every parent and every interface in full, in order. -/
inductive Record.Complete (g : Graph) : Nat → Record → Prop
  | node {i : Nat} {parents interfaces : List Record}
      (extended : List.Forall₂ (Record.Complete g) (g.entity i).parents parents)
      (implemented : List.Forall₂ (Record.Complete g) (g.entity i).interfaces interfaces) :
      Record.Complete g i
        (.node (g.entity i).kind (g.entity i).name (g.entity i).package parents interfaces)

namespace Graph

variable {g : Graph}

/-! ## Lists of records -/

theorem records_nil (path : List Nat) : g.records path [] = .ok [] := by rw [records]

/-- A list has records where each of its entities has one. -/
theorem records_eq_ok_iff {path is : List Nat} {rs : List Record} :
    g.records path is = .ok rs ↔ List.Forall₂ (fun i r => g.record path i = .ok r) is rs := by
  induction is generalizing rs with
  | nil =>
    rw [records_nil, List.forall₂_nil_left_iff]
    exact ⟨fun h => (Except.ok.inj h).symm, fun h => by rw [h]⟩
  | cons i is ih =>
    rw [records]
    constructor
    · intro h
      split at h
      · cases h
      · rename_i r hr
        split at h
        · cases h
        · rename_i rest hrest
          cases h
          exact .cons hr (ih.mp hrest)
    · intro h
      obtain ⟨r, rest, hr, hrest, rfl⟩ := List.forall₂_cons_left_iff.mp h
      simp only [hr, ih.mpr hrest]

theorem exists_records {path is : List Nat} (h : ∀ i ∈ is, ∃ r, g.record path i = .ok r) :
    ∃ rs, g.records path is = .ok rs := by
  induction is with
  | nil => exact ⟨[], records_nil path⟩
  | cons i is ih =>
    obtain ⟨r, hr⟩ := h i List.mem_cons_self
    obtain ⟨rs, hrs⟩ := ih fun j hj => h j (List.mem_cons_of_mem _ hj)
    exact ⟨r :: rs, records_eq_ok_iff.mpr (.cons hr (records_eq_ok_iff.mp hrs))⟩

theorem exists_record_of_records_error {path is : List Nat} {e : DiagramError}
    (h : g.records path is = .error e) : ∃ i ∈ is, g.record path i = .error e := by
  induction is with
  | nil => rw [records_nil] at h; cases h
  | cons i is ih =>
    rw [records] at h
    split at h
    · rename_i hr
      cases h
      exact ⟨i, List.mem_cons_self, hr⟩
    · split at h
      · rename_i hrest
        cases h
        obtain ⟨j, hj, hr⟩ := ih hrest
        exact ⟨j, List.mem_cons_of_mem _ hj, hr⟩
      · cases h

/-! ## One record -/

theorem entity_of_size_le {i : Nat} (h : g.entities.size ≤ i) : g.entity i = default := by
  unfold entity
  rw [Array.getD_eq_getD_getElem?, Array.getElem?_eq_none h]; rfl

/-- An entity off the way has a record where its relations have records. A
number that is not in use has no relations. -/
theorem record_eq_ok_iff {path : List Nat} {i : Nat} {r : Record} :
    g.record path i = .ok r ↔ i ∉ path ∧ ∃ parents interfaces,
      g.records (i :: path) (g.entity i).parents = .ok parents ∧
      g.records (i :: path) (g.entity i).interfaces = .ok interfaces ∧
      r = .node (g.entity i).kind (g.entity i).name (g.entity i).package parents interfaces := by
  by_cases hp : i ∈ path
  · rw [record, dif_pos hp]
    exact ⟨nofun, fun h => absurd hp h.1⟩
  rw [record, dif_neg hp]
  split
  · constructor
    · intro h
      split at h
      · cases h
      · rename_i parents hps
        split at h
        · cases h
        · rename_i interfaces his
          exact ⟨hp, parents, interfaces, hps, his, (Except.ok.inj h).symm⟩
    · intro h
      obtain ⟨_, parents, interfaces, hps, his, rfl⟩ := h
      simp only [hps, his]
  · rename_i hi
    rw [entity_of_size_le (Nat.le_of_not_lt hi)]
    change Except.ok (Record.node _ _ _ [] []) = _ ↔ _ ∧ ∃ parents interfaces,
      g.records (i :: path) [] = _ ∧ g.records (i :: path) [] = _ ∧ _
    rw [records_nil]
    constructor
    · intro h
      exact ⟨hp, [], [], rfl, rfl, (Except.ok.inj h).symm⟩
    · intro h
      obtain ⟨_, _, _, hps, his, rfl⟩ := h
      cases hps; cases his; rfl

/-- An entity is refused for itself or for one that a relation leads to. -/
theorem record_error {path : List Nat} {i : Nat} {e : DiagramError}
    (h : g.record path i = .error e) :
    (i ∈ path ∧ e = .cycle (g.nameOf i)) ∨
      i ∉ path ∧ i < g.entities.size ∧
        ∃ t, g.RelatesTo i t ∧ g.record (i :: path) t = .error e := by
  rw [record] at h
  split at h
  · rename_i hp
    exact .inl ⟨hp, (Except.error.inj h).symm⟩
  rename_i hp
  split at h
  · rename_i hi
    refine .inr ⟨hp, hi, ?_⟩
    split at h
    · rename_i hps
      cases h
      obtain ⟨t, ht, hr⟩ := exists_record_of_records_error hps
      exact ⟨t, List.mem_append_left _ ht, hr⟩
    · split at h
      · rename_i his
        cases h
        obtain ⟨t, ht, hr⟩ := exists_record_of_records_error his
        exact ⟨t, List.mem_append_right _ ht, hr⟩
      · cases h
  · cases h

/-! ## What is refused reaches a cycle -/

/-- A refusal names an entity that can be reached, and that is on the way already
or reaches itself. The number of entities off the way bounds the descent. -/
theorem exists_cycle_of_record {path : List Nat} {i : Nat} {e : DiagramError}
    (h : g.record path i = .error e) :
    ∃ j, Relation.ReflTransGen g.RelatesTo i j ∧ e = .cycle (g.nameOf j) ∧
      (j ∈ path ∨ Relation.TransGen g.RelatesTo j j) := by
  induction hn : g.offPath path using Nat.strongRecOn generalizing path i with
  | ind n ih =>
    rcases record_error h with ⟨hp, he⟩ | ⟨hp, hi, t, ht, hr⟩
    · exact ⟨i, .refl, he, .inl hp⟩
    · obtain ⟨j, reach, he, found⟩ := ih _ (hn ▸ offPath_cons_lt hi hp) hr rfl
      refine ⟨j, .head ht reach, he, ?_⟩
      rcases found with found | cycle
      · rcases List.mem_cons.mp found with rfl | found
        · exact .inr (.head' ht reach)
        · exact .inl found
      · exact .inr cycle

/-- Only a cycle stands against a tree. -/
theorem cycle_of_records {path is : List Nat} {e : DiagramError}
    (h : g.records path is = .error e) : ∃ name, e = .cycle name := by
  obtain ⟨i, _, hr⟩ := exists_record_of_records_error h
  obtain ⟨j, _, he, _⟩ := exists_cycle_of_record hr
  exact ⟨_, he⟩

end Graph

/-! ## What is complete reaches no cycle -/

theorem exists_of_forall₂ {α β : Type} {R : α → β → Prop} {as : List α} {bs : List β}
    (h : List.Forall₂ R as bs) {a : α} (mem : a ∈ as) : ∃ b ∈ bs, R a b := by
  induction h with
  | nil => cases mem
  | @cons _ b _ _ hr _ ih =>
    rcases List.mem_cons.mp mem with rfl | mem
    · exact ⟨b, List.mem_cons_self, hr⟩
    · obtain ⟨c, hc, related⟩ := ih mem
      exact ⟨c, List.mem_cons_of_mem _ hc, related⟩

namespace Record.Complete

variable {g : Graph} {i j : Nat} {r : Record}

/-- Below a complete record stands a smaller one for each related entity. -/
theorem exists_of_relatesTo (h : Complete g i r) (hj : g.RelatesTo i j) :
    ∃ s, Complete g j s ∧ sizeOf s < sizeOf r := by
  cases h with
  | node extended implemented =>
    rcases List.mem_append.mp hj with hm | hm
    · obtain ⟨s, hs, hc⟩ := exists_of_forall₂ extended hm
      have := List.sizeOf_lt_of_mem hs
      exact ⟨s, hc, by rw [Record.node.sizeOf_spec]; omega⟩
    · obtain ⟨s, hs, hc⟩ := exists_of_forall₂ implemented hm
      have := List.sizeOf_lt_of_mem hs
      exact ⟨s, hc, by rw [Record.node.sizeOf_spec]; omega⟩

theorem exists_of_reaches (h : Complete g i r) (hj : Relation.ReflTransGen g.RelatesTo i j) :
    ∃ s, Complete g j s := by
  induction hj with
  | refl => exact ⟨r, h⟩
  | tail _ last ih =>
    obtain ⟨s, hs⟩ := ih
    obtain ⟨t, ht, _⟩ := hs.exists_of_relatesTo last
    exact ⟨t, ht⟩

theorem exists_smaller (h : Complete g i r) (hj : Relation.TransGen g.RelatesTo i j) :
    ∃ s, Complete g j s ∧ sizeOf s < sizeOf r := by
  induction hj with
  | single first => exact h.exists_of_relatesTo first
  | tail _ last ih =>
    obtain ⟨s, hs, hlt⟩ := ih
    obtain ⟨t, ht, hlt'⟩ := hs.exists_of_relatesTo last
    exact ⟨t, ht, Nat.lt_trans hlt' hlt⟩

theorem not_cycle (h : Complete g i r) : ¬ Relation.TransGen g.RelatesTo i i := by
  induction hn : sizeOf r using Nat.strongRecOn generalizing r with
  | ind n ih =>
    intro cycle
    obtain ⟨s, hs, hlt⟩ := h.exists_smaller cycle
    exact ih _ (hn ▸ hlt) hs rfl cycle

theorem not_reachesCycle (h : Complete g i r) : ¬ g.ReachesCycle i := by
  intro hc
  obtain ⟨j, reach, cycle⟩ := hc
  obtain ⟨s, hs⟩ := h.exists_of_reaches reach
  exact hs.not_cycle cycle

/-- A complete record is the one that is written, if nothing on the way can be
reached from its entity. -/
theorem record_eq (h : Complete g i r) {path : List Nat}
    (off : ∀ j ∈ path, ¬ Relation.ReflTransGen g.RelatesTo i j) : g.record path i = .ok r := by
  induction hn : sizeOf r using Nat.strongRecOn generalizing i r path with
  | ind n ih =>
    have below : ∀ t, g.RelatesTo i t → ∀ j ∈ i :: path,
        ¬ Relation.ReflTransGen g.RelatesTo t j := by
      intro t ht j hj reach
      rcases List.mem_cons.mp hj with rfl | hj
      · exact h.not_cycle (.head' ht reach)
      · exact off j hj (.head ht reach)
    cases h with
    | @node _ parents interfaces extended implemented =>
      rw [Record.node.sizeOf_spec] at hn
      have written {is : List Nat} {rs : List Record} (hrs : List.Forall₂ (Complete g) is rs)
          (related : ∀ t ∈ is, g.RelatesTo i t) (smaller : sizeOf rs < n) :
          g.records (i :: path) is = .ok rs := by
        obtain ⟨length, complete⟩ := List.forall₂_iff_zip.mp hrs
        refine Graph.records_eq_ok_iff.mpr (List.forall₂_iff_zip.mpr ⟨length, ?_⟩)
        intro t s hts
        obtain ⟨ht, hs⟩ := List.of_mem_zip hts
        have := List.sizeOf_lt_of_mem hs
        exact ih _ (by omega) (complete hts) (below t (related t ht)) rfl
      exact Graph.record_eq_ok_iff.mpr ⟨fun hp => off i hp .refl, parents, interfaces,
        written extended (fun _ => List.mem_append_left _) (by omega),
        written implemented (fun _ => List.mem_append_right _) (by omega), rfl⟩

end Record.Complete

/-! ## The tree of a graph -/

namespace Graph

variable {g : Graph}

theorem complete_of_record {path : List Nat} {i : Nat} {r : Record}
    (h : g.record path i = .ok r) : r.Complete g i := by
  induction hn : sizeOf r using Nat.strongRecOn generalizing i r path with
  | ind n ih =>
    obtain ⟨_, parents, interfaces, hps, his, rfl⟩ := record_eq_ok_iff.mp h
    rw [Record.node.sizeOf_spec] at hn
    have shown {is : List Nat} {rs : List Record} (hrs : g.records (i :: path) is = .ok rs)
        (smaller : sizeOf rs < n) : List.Forall₂ (Record.Complete g) is rs := by
      obtain ⟨length, written⟩ := List.forall₂_iff_zip.mp (records_eq_ok_iff.mp hrs)
      refine List.forall₂_iff_zip.mpr ⟨length, ?_⟩
      intro t s hts
      have := List.sizeOf_lt_of_mem (List.of_mem_zip hts).2
      exact ih _ (by omega) (written hts) rfl
    exact .node (shown hps (by omega)) (shown his (by omega))

theorem record_eq_ok_iff_complete {i : Nat} {r : Record} :
    g.record [] i = .ok r ↔ r.Complete g i :=
  ⟨complete_of_record, fun h => h.record_eq nofun⟩

theorem exists_record_iff {i : Nat} : (∃ r, g.record [] i = .ok r) ↔ ¬ g.ReachesCycle i := by
  constructor
  · intro h
    obtain ⟨r, hr⟩ := h
    exact (complete_of_record hr).not_reachesCycle
  · intro h
    cases hr : g.record [] i with
    | ok r => exact ⟨r, rfl⟩
    | error e =>
      obtain ⟨j, reach, _, hj | cycle⟩ := exists_cycle_of_record hr
      · cases hj
      · exact absurd ⟨j, reach, cycle⟩ h

/-- What a tree is refused for names an entity that can be reached and reaches itself. -/
theorem exists_cycle_of_toTree {e : DiagramError} (h : g.toTree = .error e) :
    ∃ i ∈ g.registry, ∃ j, Relation.ReflTransGen g.RelatesTo i j ∧
      Relation.TransGen g.RelatesTo j j ∧ e = .cycle (g.nameOf j) := by
  obtain ⟨i, mem, refused⟩ := exists_record_of_records_error h
  obtain ⟨j, reach, rfl, above | cycle⟩ := exists_cycle_of_record refused
  · cases above
  · exact ⟨i, mem, j, reach, cycle, rfl⟩

theorem exists_records_iff {is : List Nat} :
    (∃ rs, g.records [] is = .ok rs) ↔ ∀ i ∈ is, ¬ g.ReachesCycle i := by
  constructor
  · intro h i hi
    obtain ⟨rs, hrs⟩ := h
    obtain ⟨r, _, hr⟩ := exists_of_forall₂
      ((records_eq_ok_iff.mp hrs).imp fun _ _ => complete_of_record) hi
    exact hr.not_reachesCycle
  · intro h
    exact exists_records fun i hi => exists_record_iff.mpr (h i hi)

theorem toTree_of_reachesCycle {i : Nat} (mem : i ∈ g.registry) (cyclic : g.ReachesCycle i) :
    ∃ name, g.toTree = .error (.cycle name) := by
  cases h : g.toTree with
  | ok rs => exact absurd cyclic (exists_records_iff.mp ⟨rs, h⟩ i mem)
  | error e =>
    obtain ⟨_, rfl⟩ := cycle_of_records h
    exact ⟨_, rfl⟩

end Graph

/-- An entity is refused if and only if it reaches a cycle. Every other entity is
written in full, and its record is the only one that shows it in full. The tree
of a graph is refused if and only if some registered entity reaches a cycle, and
otherwise holds one record for each registered entity, in order. -/
theorem tree_unless_cycle (g : Graph) :
    (∀ i, ((∃ name, g.record [] i = .error (.cycle name)) ↔ g.ReachesCycle i) ∧
      ((∃ r, g.record [] i = .ok r) ↔ ¬ g.ReachesCycle i) ∧
      ∀ r, g.record [] i = .ok r ↔ r.Complete g i) ∧
    ((∃ name, g.toTree = .error (.cycle name)) ↔ ∃ i ∈ g.registry, g.ReachesCycle i) ∧
    ((∃ rs, g.toTree = .ok rs) ↔ ∀ i ∈ g.registry, ¬ g.ReachesCycle i) ∧
    ∀ rs, g.toTree = .ok rs ↔ List.Forall₂ (Record.Complete g) g.registry rs := by
  -- a refusal is always for a cycle, and so it is the absence of a result
  have refused {α : Type} (result : Except DiagramError α)
      (cycle : ∀ e, result = .error e → ∃ name, e = .cycle name) :
      (∃ name, result = .error (.cycle name)) ↔ ¬ ∃ a, result = .ok a := by
    cases result with
    | ok a => simp
    | error e =>
      obtain ⟨name, rfl⟩ := cycle e rfl
      simp
  refine ⟨fun i => ⟨?_, Graph.exists_record_iff, fun r => Graph.record_eq_ok_iff_complete⟩, ?_,
    Graph.exists_records_iff, fun rs => ?_⟩
  · rw [refused _ fun e he => ?_, Graph.exists_record_iff, not_not]
    obtain ⟨j, _, rfl, _⟩ := Graph.exists_cycle_of_record he
    exact ⟨_, rfl⟩
  · rw [refused g.toTree fun e => Graph.cycle_of_records, Graph.toTree, Graph.exists_records_iff]
    push Not
    rfl
  · rw [Graph.toTree, Graph.records_eq_ok_iff]
    simp only [Graph.record_eq_ok_iff_complete]

/-- Two ways to one ancestor, over two entities of one name, are no cycle: the
ancestor is written out twice. A cycle below the start is found, also where it
runs over a parent and an interface in turn. -/
theorem tree_of_diamond_and_cycle : ∃ g : Graph,
    g = ⟨#[⟨"D", .str "", .concrete, [1, 2], []⟩, ⟨"B", .str "", .concrete, [3], []⟩,
      ⟨"B", .str "", .concrete, [3], []⟩, ⟨"A", .str "", .abstract, [], []⟩,
      ⟨"E", .str "", .concrete, [0, 5], []⟩, ⟨"F", .str "", .interface, [3], [6]⟩,
      ⟨"G", .str "", .interface, [5], []⟩], [0, 4]⟩ ∧
    (let a := .node .abstract "A" (.str "") [] []
     let b := .node .concrete "B" (.str "") [a] []
     g.record [] 0 = .ok (.node .concrete "D" (.str "") [b, b] [])) ∧
    g.ReachesCycle 4 ∧ ∃ name, g.toTree = .error (.cycle name) := by
  let g : Graph := ⟨#[⟨"D", .str "", .concrete, [1, 2], []⟩, ⟨"B", .str "", .concrete, [3], []⟩,
      ⟨"B", .str "", .concrete, [3], []⟩, ⟨"A", .str "", .abstract, [], []⟩,
      ⟨"E", .str "", .concrete, [0, 5], []⟩, ⟨"F", .str "", .interface, [3], [6]⟩,
      ⟨"G", .str "", .interface, [5], []⟩], [0, 4]⟩
  obtain ⟨single, refused, _, _⟩ := tree_unless_cycle g
  have relates {i j : Nat} (h : j ∈ (g.entity i).targets) : g.RelatesTo i j := h
  have four : g.ReachesCycle 4 := by
    have cycle : Relation.TransGen g.RelatesTo 5 5 :=
      .tail (.single (relates (j := 6) (by decide))) (relates (by decide))
    exact ⟨5, .single (relates (by decide)), cycle⟩
  have a : Record.Complete g 3 (.node .abstract "A" (.str "") [] []) := .node .nil .nil
  have b (i : Nat) (hi : i = 1 ∨ i = 2) : Record.Complete g i
      (.node .concrete "B" (.str "") [.node .abstract "A" (.str "") [] []] []) := by
    rcases hi with rfl | rfl <;> exact .node (.cons a .nil) .nil
  have d : Record.Complete g 0 _ :=
    .node (.cons (b 1 (.inl rfl)) (.cons (b 2 (.inr rfl)) .nil)) .nil
  exact ⟨g, rfl, ((single 0).2.2 _).mpr d, four, refused.mpr ⟨4, by decide, four⟩⟩

end ClassGraph
