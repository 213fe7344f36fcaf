import ClassGraph.Proofs.Provenance
import ClassGraph.Proofs.RoundTrip

/-! # Documents of parsed graphs

The document of a graph is made of texts, lists and objects with distinct keys,
and its texts are the names and packages of the graph. It can therefore be
written and read again where the text of the diagram can, and sent where that
text can be encoded. The messages of errors can be encoded then as well.
-/

namespace ClassGraph

namespace Json

/-- A value made of texts of a kind, of lists, and of objects with distinct keys. -/
inductive Textual (P : Text → Prop) : Json → Prop
  | str {t : Text} (kind : P t) : Textual P (.str t)
  | arr {items : List Json} (all : ∀ item ∈ items, Textual P item) : Textual P (.arr items)
  | obj {members : List (Text × Json)} (distinct : (members.map Prod.fst).Nodup)
      (keys : ∀ m ∈ members, P m.1) (values : ∀ m ∈ members, Textual P m.2) :
      Textual P (.obj members)

/-- A value that can be the body of an answer. -/
def Sendable (v : Json) : Prop := v.hasDigitlessNumber = false ∧ v.isEncodable = true

theorem sendable_str {t : Text} : (str t).Sendable ↔ t.isEncodable = true := by
  simp [Sendable, hasDigitlessNumber, isEncodable]

theorem sendable_int (i : Int) : (int i).Sendable := ⟨rfl, rfl⟩

theorem isEncodable_arr {items : List Json} :
    (arr items).isEncodable = true ↔ ∀ item ∈ items, item.isEncodable = true := by
  induction items with
  | nil => exact ⟨fun _ => nofun, fun _ => rfl⟩
  | cons item items ih =>
    rw [List.forall_mem_cons, ← ih]
    simp only [isEncodable, areEncodable, Bool.and_eq_true]

theorem isEncodable_obj {members : List (Text × Json)} : (obj members).isEncodable = true ↔
    ∀ m ∈ members, m.1.isEncodable = true ∧ m.2.isEncodable = true := by
  induction members with
  | nil => exact ⟨fun _ => nofun, fun _ => rfl⟩
  | cons m members ih =>
    obtain ⟨key, value⟩ := m
    rw [List.forall_mem_cons, ← ih]
    simp only [isEncodable, areEncodableMembers, Bool.and_eq_true]

theorem hasDigitlessNumber_arr {items : List Json} :
    (arr items).hasDigitlessNumber = false ↔ ∀ item ∈ items, item.hasDigitlessNumber = false := by
  induction items with
  | nil => exact ⟨fun _ => nofun, fun _ => rfl⟩
  | cons item items ih =>
    rw [List.forall_mem_cons, ← ih]
    simp only [hasDigitlessNumber, anyDigitlessItem, Bool.or_eq_false_iff]

theorem hasDigitlessNumber_obj {members : List (Text × Json)} :
    (obj members).hasDigitlessNumber = false ↔
      ∀ m ∈ members, m.2.hasDigitlessNumber = false := by
  induction members with
  | nil => exact ⟨fun _ => nofun, fun _ => rfl⟩
  | cons m members ih =>
    obtain ⟨key, value⟩ := m
    rw [List.forall_mem_cons, ← ih]
    simp only [hasDigitlessNumber, anyDigitlessMember, Bool.or_eq_false_iff]

theorem sendable_arr {items : List Json} :
    (arr items).Sendable ↔ ∀ item ∈ items, item.Sendable := by
  simp only [Sendable, hasDigitlessNumber_arr, isEncodable_arr, forall_and]

theorem sendable_obj {members : List (Text × Json)} : (obj members).Sendable ↔
    ∀ m ∈ members, m.1.isEncodable = true ∧ m.2.Sendable := by
  simp only [Sendable, hasDigitlessNumber_obj, isEncodable_obj, forall_and]
  exact and_left_comm

namespace Textual

variable {P : Text → Prop} {v : Json}

theorem tidy (h : v.Textual Text.Joined) : v.Tidy := by
  induction h with
  | str joined => exact .str joined
  | arr _ ih => exact .arr ih
  | obj distinct keys _ ih => exact .obj distinct keys ih

theorem part (h : v.Textual P) {w : Json} (inside : v.Part w) : w.Textual P := by
  induction inside with
  | self => exact h
  | item _ mem ih => cases ih with | arr all => exact all _ mem
  | member _ mem ih => cases ih with | obj _ _ values => exact values _ mem

/-- No number stands in such a value. -/
theorem exact (h : v.Textual P) : v.Exact := fun _ inside => nomatch h.part inside

theorem restorable (h : v.Textual Text.Joined) : v.Restorable := h.tidy.restorable h.exact

theorem hasDigitlessNumber (h : v.Textual P) : v.hasDigitlessNumber = false := by
  induction h with
  | str => rfl
  | arr _ ih => exact hasDigitlessNumber_arr.mpr ih
  | obj _ _ _ ih => exact hasDigitlessNumber_obj.mpr ih

theorem sendable (h : v.Textual fun t => t.isEncodable = true) : v.Sendable := by
  refine ⟨h.hasDigitlessNumber, ?_⟩
  induction h with
  | str kind => exact kind
  | arr _ ih => exact isEncodable_arr.mpr ih
  | obj _ keys _ ih => exact isEncodable_obj.mpr fun m hm => ⟨keys m hm, ih m hm⟩

end Textual

end Json

/-! ## Trees and documents -/

open Json (Textual)

variable {P : Text → Prop} {g : Graph} {records : List Record}

theorem Record.textual_node (hereditary : Text.Hereditary P) {kind : EntityKind}
    {name package : Text} {parents interfaces : List Record} (named : P name) (placed : P package)
    (extended : (Json.arr (parents.map toJson)).Textual P)
    (implemented : (Json.arr (interfaces.map toJson)).Textual P) :
    (Record.node kind name (.str package) parents interfaces).toJson.Textual P := by
  have keys : [("Name" : Text), "Package", "Parents", "Interfaces"].Nodup := by decide
  rw [toJson, listToJson_eq_map, listToJson_eq_map]
  refine .obj (List.pairwise_singleton _ _) (by simpa using hereditary.string _) ?_
  refine List.forall_mem_singleton.mpr (.obj keys ?_ ?_)
  · simp only [List.forall_mem_cons]
    exact ⟨hereditary.string _, hereditary.string _, hereditary.string _, hereditary.string _,
      List.forall_mem_nil _⟩
  · simp only [List.forall_mem_cons]
    exact ⟨.str named, .str placed, extended, implemented, List.forall_mem_nil _⟩

namespace Graph

theorem entity_of_lt {i : Nat} (h : i < g.entities.size) : g.entity i = g.entities[i] := by
  rw [entity, Array.getD_eq_getD_getElem?, Array.getElem?_eq_getElem h, Option.getD_some]

theorem exists_record_of_mem {path is : List Nat} {r : Record}
    (h : g.records path is = .ok records) (hr : r ∈ records) :
    ∃ i ∈ is, g.record path i = .ok r := by
  induction records_eq_ok_iff.mp h with
  | nil => cases hr
  | @cons i s is rs written rest ih =>
    rcases List.mem_cons.mp hr with rfl | hr
    · exact ⟨i, List.mem_cons_self, written⟩
    · obtain ⟨j, hj, written⟩ := ih (records_eq_ok_iff.mpr rest) hr
      exact ⟨j, List.mem_cons_of_mem _ hj, written⟩

theorem nameOf_traces (empty : P []) (traces : g.Traces P) (i : Nat) :
    P (g.nameOf i) := by
  by_cases used : i < g.entities.size
  · rw [nameOf, entity_of_lt used]
    exact (traces i used).1
  · rw [nameOf, entity_of_size_le (Nat.le_of_not_lt used)]
    exact empty

/-- A graph without a tree is refused for a name of its own. -/
theorem traces_of_toTree (hereditary : Text.Hereditary P) (traces : g.Traces P) {e : DiagramError}
    (h : g.toTree = .error e) : e.Traces P := by
  obtain ⟨i, _, hr⟩ := exists_record_of_records_error h
  obtain ⟨j, _, rfl, _⟩ := exists_cycle_of_record hr
  exact nameOf_traces (hereditary.string "") traces j

theorem textual_record (hereditary : Text.Hereditary P) (declared : g.Declared)
    (traces : g.Traces P) {path : List Nat} {i : Nat} {r : Record} (used : i < g.entities.size)
    (h : g.record path i = .ok r) : r.toJson.Textual P := by
  induction hn : sizeOf r using Nat.strongRecOn generalizing i r path with
  | ind n ih =>
    obtain ⟨_, parents, interfaces, hps, his, rfl⟩ := record_eq_ok_iff.mp h
    rw [Record.node.sizeOf_spec] at hn
    have below {is : List Nat} {rs : List Record} (hrs : g.records (i :: path) is = .ok rs)
        (related : ∀ t ∈ is, t ∈ (g.entity i).targets) (smaller : sizeOf rs < n) :
        (Json.arr (rs.map Record.toJson)).Textual P := by
      refine .arr (List.forall_mem_map.mpr fun s hs => ?_)
      obtain ⟨t, ht, written⟩ := exists_record_of_mem hrs hs
      have inside := declared.target_mem (related t ht)
      rw [declared.registry, List.mem_range] at inside
      have := List.sizeOf_lt_of_mem hs
      exact ih _ (by omega) inside written rfl
    obtain ⟨named, package, placed, kind⟩ := traces i used
    rw [← entity_of_lt used] at named placed
    rw [placed]
    exact Record.textual_node hereditary named kind
      (below hps (fun _ => List.mem_append_left _) (by omega))
      (below his (fun _ => List.mem_append_right _) (by omega))

theorem textual_treeToJson (hereditary : Text.Hereditary P) (declared : g.Declared)
    (traces : g.Traces P) (h : g.toTree = .ok records) :
    (treeToJson records).Textual P := by
  refine .arr (List.forall_mem_map.mpr fun r hr => ?_)
  obtain ⟨i, hi, written⟩ := exists_record_of_mem h hr
  rw [declared.registry, List.mem_range] at hi
  exact textual_record hereditary declared traces hi written

end Graph

theorem Graph.document_of_toTree (h : g.toTree = .ok records) :
    g.document = .ok (documentOf records) := by
  rw [document, h]; rfl

theorem Graph.document_of_toTree_error {e : DiagramError} (h : g.toTree = .error e) :
    g.document = .error e := by
  rw [document, h]; rfl

/-- The tree of a parsed graph is made of texts that come from the text that was parsed. -/
theorem textual_of_parse (hereditary : Text.Hereditary P) {source : Text} (h : P source)
    (parsed : parse source = .ok g) (tree : g.toTree = .ok records) :
    (treeToJson records).Textual P := by
  have traces := (traces_parse hereditary h).1 g parsed
  obtain ⟨d, _, _, rfl, _⟩ := Builder.parsed parsed
  exact Graph.textual_treeToJson hereditary d.declared_graphBefore traces tree

/-- A text whose relations lead back to earlier declarations has a tree. -/
theorem exists_tree_of_backward {source : Text} {g : Graph} (parsed : parse source = .ok g)
    (backward : ∀ e ∈ Diagram.edges (Token.stream source).1, e.target < e.child) :
    ∃ tree, g.toTree = .ok tree := by
  obtain ⟨d, _, stream, rfl, _⟩ := Builder.parsed parsed
  rw [stream] at backward
  refine Graph.exists_toTree_of_backward fun i t ht => ?_
  obtain ⟨e, he, rfl, rfl⟩ := Diagram.exists_edge_of_mem_targets ht
  exact backward e he

/-- A text whose first declaration relates to itself has none. -/
theorem exists_cycle_of_loop {source : Text} {g : Graph} (parsed : parse source = .ok g)
    (loop : ∀ g ∈ (parse source).toOption, 0 ∈ g.registry ∧ 0 ∈ (g.entity 0).targets) :
    ∃ name, g.toTree = .error (.cycle name) := by
  obtain ⟨registered, related⟩ := loop g (by rw [parsed]; rfl)
  exact Graph.toTree_of_reachesCycle registered ⟨0, .refl, .single related⟩

theorem textual_documentOf (hereditary : Text.Hereditary P)
    (h : (treeToJson records).Textual P) : (documentOf records).Textual P := by
  have keys : [("schema_version" : Text), "entities"].Nodup := by decide
  refine .obj keys ?_ ?_
  · simp only [List.forall_mem_cons]
    exact ⟨hereditary.string _, hereditary.string _, nofun⟩
  · simp only [List.forall_mem_cons]
    exact ⟨.str (hereditary.string _), h, nofun⟩

/-! ## Messages -/

theorem Text.isEncodable_append {s t : Text} :
    (s ++ t).isEncodable = true ↔ s.isEncodable = true ∧ t.isEncodable = true := by
  simp only [isEncodable_iff, List.forall_mem_append]

theorem ParseError.isEncodable_message {e : ParseError}
    (h : ∀ t ∈ e.texts, t.isEncodable = true) : e.message.isEncodable = true := by
  have value {name : Token} (h : name.text.isEncodable = true) : name.value.isEncodable = true :=
    Builder.value_of_text Text.hereditary_isEncodable.toInherited h
  have shown {token : Token} (h : token.text.isEncodable = true) :
      (shown token).isEncodable = true := by
    unfold ParseError.shown
    split
    · exact Text.isEncodable_ofString _
    · exact h
  cases e <;> simp only [texts, List.forall_mem_cons] at h <;>
    simp only [message, wording, Position.describe, Text.isEncodable_append,
      Text.isEncodable_ofString, true_and, and_true]
  case danglingName => exact value h.1
  case openPackage => exact h.1
  case missingBrace => exact ⟨h.1, h.2.1⟩
  case missingName => exact ⟨h.1, shown h.2.1⟩
  case missingOperand => exact h.1
  case unknownName => exact value h.1
  case missingSubject => exact h.1
  case unsupportedArrow => exact h.1

/-- The message of an error can be encoded where the texts that it shows can. -/
theorem DiagramError.isEncodable_message {e : DiagramError}
    (h : e.Traces fun t => t.isEncodable = true) : e.message.isEncodable = true := by
  cases e with
  | lex e =>
    simp only [message, LexError.message, Position.describe, Text.isEncodable_append,
      Text.isEncodable_ofString, and_self]
  | parse e => exact e.isEncodable_message h
  | cycle name =>
    simp only [message, Text.isEncodable_append, Text.isEncodable_ofString, true_and, and_true]
    exact h
  | tree fault => cases h

end ClassGraph
