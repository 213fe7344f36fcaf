import ClassGraph.Proofs.Diagram.Described

/-! # What a diagram says grows token by token

A token adds at most one declaration or one edge to what the tokens in front of
it say. A name keeps denoting what it denotes once it is declared, and every
edge runs between entities that are declared in front of it.
-/

namespace ClassGraph

theorem TokenKind.isClassLike_of_isRelation {kind : TokenKind} (h : kind.isRelation = true) :
    kind.isClassLike = false := by
  cases kind <;> first | rfl | cases h

namespace Diagram

variable {d : Diagram} {k m : Nat}

theorem kindAt_eq_some_iff {kind : TokenKind} :
    d.kindAt k = some kind ↔ ∃ t, d[k]? = some t ∧ t.kind = kind := Option.map_eq_some_iff

theorem nameAt_eq_some_iff {t : Token} :
    d.nameAt k = some t ↔ d[k]? = some t ∧ t.kind = .name := by
  simp [nameAt, Option.filter_eq_some_iff]

theorem nameBefore_eq_some_iff {t : Token} :
    d.nameBefore k = some t ↔ d.tokenBefore k = some t ∧ t.kind = .name := by
  cases k with
  | zero => simp [nameBefore, tokenBefore]
  | succ j => exact nameAt_eq_some_iff

/-- A token that occurs once has one number. -/
theorem number_unique (hd : d.Nodup) {t : Token} (hk : d[k]? = some t) (hm : d[m]? = some t) :
    k = m :=
  (List.getElem?_inj (List.getElem?_eq_some_iff.mp hk).1 hd).mp (hk.trans hm.symm)

theorem isOperandAt_succ_iff : d.isOperandAt (k + 1) = true ↔ ∃ word relation name,
    d[k]? = some word ∧ word.kind = .relate relation ∧ d.nameAt (k + 1) = some name := by
  rw [isOperandAt]
  split
  · rename_i relation name hk hn
    obtain ⟨word, hw, hk⟩ := kindAt_eq_some_iff.mp hk
    exact ⟨fun _ => ⟨word, relation, name, hw, hk, hn⟩, fun _ => rfl⟩
  · rename_i hne
    constructor
    · intro h; cases h
    · intro h
      obtain ⟨word, relation, name, hw, hk, hn⟩ := h
      exact absurd hn (hne relation name (kindAt_eq_some_iff.mpr ⟨word, hw, hk⟩))

theorem frameAt_eq_package {keyword name : Token} (hk : d[k]? = some keyword)
    (kind : keyword.kind = .package) (hn : d.nameAt (k + 1) = some name) :
    d.frameAt (k + 2) = .package name.value := by
  rw [frameAt, kindAt_eq_some_iff.mpr ⟨keyword, hk, kind⟩, hn]

theorem frameAt_eq_plain (h : ∀ word name, d[k]? = some word → d.nameAt (k + 1) = some name →
    word.kind ≠ .package) : d.frameAt (k + 2) = .plain := by
  rw [frameAt]
  split
  · rename_i name hk hn
    obtain ⟨word, hw, hk⟩ := kindAt_eq_some_iff.mp hk
    exact absurd hk (h word name hw hn)
  · rfl

theorem declarationsBefore_succ (d : Diagram) (k : Nat) :
    d.declarationsBefore (k + 1) = d.declarationsBefore k ++ (d.declarationAt k).toList := by
  unfold declarationsBefore
  rw [List.range_succ, List.filterMap_append]
  cases h : d.declarationAt k <;> simp [h]

theorem edgesBefore_succ (d : Diagram) (k : Nat) :
    d.edgesBefore (k + 1) = d.edgesBefore k ++ (d.edgeAt k).toList := by
  unfold edgesBefore
  rw [List.range_succ, List.filterMap_append]
  cases h : d.edgeAt k <;> simp [h]

/-- Earlier declarations keep their numbers. -/
theorem declarationsBefore_mono (d : Diagram) (h : k ≤ m) :
    d.declarationsBefore k <+: d.declarationsBefore m := by
  induction h with
  | refl => exact List.prefix_refl _
  | step _ ih =>
    rw [Nat.succ_eq_add_one, declarationsBefore_succ]
    exact ih.trans (List.prefix_append _ _)

theorem entityNamed_mono {name : Text} {i : Nat} (h : d.entityNamed k name = some i)
    (hk : k ≤ m) : d.entityNamed m name = some i := by
  obtain ⟨rest, hr⟩ := declarationsBefore_mono d hk
  unfold entityNamed at h ⊢
  rw [← hr, List.findIdx?_append, h, Option.some_or]

theorem entityNamed_lt {name : Text} {i : Nat} (h : d.entityNamed k name = some i) :
    i < (d.declarationsBefore k).length := by
  obtain ⟨hi, _⟩ := List.findIdx?_eq_some_iff_getElem.mp h
  exact hi

theorem name_of_entityNamed {name : Text} {i : Nat} (h : d.entityNamed k name = some i) :
    ∃ e, (d.declarationsBefore k)[i]? = some e ∧ e.name = name := by
  obtain ⟨hi, hn, _⟩ := List.findIdx?_eq_some_iff_getElem.mp h
  exact ⟨_, List.getElem?_eq_getElem hi, beq_iff_eq.mp hn⟩

theorem lastDeclared_lt {i : Nat} (h : d.lastDeclared k = some i) :
    i < (d.declarationsBefore k).length := by
  unfold lastDeclared at h
  split at h
  · cases h
  · rename_i n hn
    cases h; rw [hn]; omega

theorem ownSubjectAt_lt {i : Nat} (h : d.ownSubjectAt k = some i) :
    i < (d.declarationsBefore k).length := by
  unfold ownSubjectAt at h
  split at h
  · exact entityNamed_lt h
  · exact lastDeclared_lt h

theorem subjectAt_lt {i : Nat} (h : d.subjectAt k = some i) :
    i < (d.declarationsBefore k).length := by
  fun_induction subjectAt d k with
  | case1 => exact ownSubjectAt_lt h
  | case2 => exact ownSubjectAt_lt h
  | case3 k _ ih => exact Nat.lt_of_lt_of_le (ih h) (declarationsBefore_mono d (by omega)).length_le
  | case4 k _ => exact ownSubjectAt_lt h

/-! ## Frames change at braces -/

theorem openFrames_succ {t : Token} (ht : d[k]? = some t) (ho : t.kind ≠ .openBrace)
    (hc : t.kind ≠ .closeBrace) : d.openFrames (k + 1) = d.openFrames k := by
  have hk : d.kindAt k = some t.kind := kindAt_eq_some_iff.mpr ⟨t, ht, rfl⟩
  rw [openFrames, hk]
  split
  · rename_i h; exact absurd (Option.some.inj h) ho
  · rename_i h; exact absurd (Option.some.inj h) hc
  · rfl

theorem openFrames_succ_of_openBrace {t : Token} (ht : d[k]? = some t)
    (hk : t.kind = .openBrace) : d.openFrames (k + 1) = d.frameAt k :: d.openFrames k := by
  rw [openFrames, kindAt_eq_some_iff.mpr ⟨t, ht, hk⟩]

theorem openFrames_succ_of_closeBrace {t : Token} (ht : d[k]? = some t)
    (hk : t.kind = .closeBrace) : d.openFrames (k + 1) = (d.openFrames k).tail := by
  rw [openFrames, kindAt_eq_some_iff.mpr ⟨t, ht, hk⟩]

/-! ## What an edge comes from -/

theorem edgeAt_keyword {t : Token} {relation : Relation} (ht : d[k]? = some t)
    (hk : t.kind = .relate relation) {e : Edge} :
    d.edgeAt k = some e ↔ ∃ child operand target, d.subjectAt k = some child ∧
      d.nameAt (k + 1) = some operand ∧ d.entityNamed k operand.value = some target ∧
      e = ⟨child, relation, target⟩ := by
  unfold edgeAt
  simp only [ht, hk, Option.bind_eq_bind, Option.bind_some, Option.bind_eq_some_iff,
    Option.pure_def, Option.some.injEq]
  constructor
  · intro h
    obtain ⟨child, hs, operand, hn, target, hr, rfl⟩ := h
    exact ⟨child, operand, target, hs, hn, hr, rfl⟩
  · intro h
    obtain ⟨child, operand, target, hs, hn, hr, rfl⟩ := h
    exact ⟨child, hs, operand, hn, target, hr, rfl⟩

theorem edgeAt_arrow {t : Token} {side : Side} (ht : d[k]? = some t)
    (hk : t.kind = .arrow side) {e : Edge} :
    d.edgeAt k = some e ↔ ∃ relation left before right after,
      (Arrow.family side t.text).relation? = some relation ∧
      d.nameBefore k = some left ∧ d.entityNamed k left.value = some before ∧
      d.nameAt (k + 1) = some right ∧ d.entityNamed k right.value = some after ∧
      e = .drawn side relation before after := by
  unfold edgeAt
  simp only [ht, hk, Option.bind_eq_bind, Option.bind_some, Option.bind_eq_some_iff,
    Option.pure_def, Option.some.injEq]
  constructor
  · intro h
    obtain ⟨relation, hf, left, hl, before, hb, right, hr, after, ha, rfl⟩ := h
    exact ⟨relation, left, before, right, after, hf, hl, hb, hr, ha, rfl⟩
  · intro h
    obtain ⟨relation, left, before, right, after, hf, hl, hb, hr, ha, rfl⟩ := h
    exact ⟨relation, hf, left, hl, before, hb, right, hr, after, ha, rfl⟩

theorem exists_relation_of_edgeAt {e : Edge} (h : d.edgeAt k = some e) :
    ∃ t, d[k]? = some t ∧ t.kind.isRelation = true := by
  unfold edgeAt at h
  obtain ⟨t, ht, h⟩ := Option.bind_eq_some_iff.mp h
  refine ⟨t, ht, ?_⟩
  split at h <;> rename_i hk
  · rw [hk]; rfl
  · rw [hk]; rfl
  · cases h

theorem declarationAt_eq_some_iff {e : Declaration} :
    d.declarationAt k = some e ↔ ∃ keyword name, d[k]? = some keyword ∧
      keyword.kind = .declare e.kind ∧ d[k + 1]? = some name ∧ e.name = name.value ∧
      e.package = Frame.path (d.openFrames k) := by
  unfold declarationAt
  split
  · rename_i kind name hk hn
    obtain ⟨keyword, hd, hk⟩ := kindAt_eq_some_iff.mp hk
    constructor
    · intro h
      cases h
      exact ⟨keyword, name, hd, hk, hn, rfl, rfl⟩
    · intro h
      obtain ⟨keyword', name', hd', hk', hn', h₁, h₂⟩ := h
      cases hd.symm.trans hd'
      cases hn.symm.trans hn'
      cases hk.symm.trans hk'
      rw [← h₁, ← h₂]
  · rename_i hne
    simp only [reduceCtorEq, false_iff]
    intro h
    obtain ⟨keyword, name, hd, hk, hn, _⟩ := h
    exact hne _ _ (kindAt_eq_some_iff.mpr ⟨keyword, hd, hk⟩) hn

theorem declarationAt_eq_none {t : Token} (ht : d[k]? = some t)
    (hk : t.kind.isClassLike = false) : d.declarationAt k = none := by
  rw [Option.eq_none_iff_forall_ne_some]
  intro e he
  obtain ⟨keyword, _, hd, hkind, _⟩ := declarationAt_eq_some_iff.mp he
  cases ht.symm.trans hd
  rw [hkind] at hk; cases hk

theorem edgeAt_eq_none {t : Token} (ht : d[k]? = some t)
    (hk : t.kind.isRelation = false) : d.edgeAt k = none := by
  rw [Option.eq_none_iff_forall_ne_some]
  intro e he
  obtain ⟨word, hw, hr⟩ := exists_relation_of_edgeAt he
  cases ht.symm.trans hw
  rw [hk] at hr; cases hr

/-- An edge runs between entities that are declared in front of its token. -/
theorem edgeAt_lt {e : Edge} (h : d.edgeAt k = some e) :
    e.child < (d.declarationsBefore k).length ∧ e.target < (d.declarationsBefore k).length := by
  obtain ⟨t, ht, hr⟩ := exists_relation_of_edgeAt h
  cases hk : t.kind with
  | relate relation =>
    obtain ⟨child, operand, target, hs, _, hn, rfl⟩ := (edgeAt_keyword ht hk).mp h
    exact ⟨subjectAt_lt hs, entityNamed_lt hn⟩
  | arrow side =>
    obtain ⟨relation, left, before, right, after, _, _, hb, _, ha, rfl⟩ := (edgeAt_arrow ht hk).mp h
    cases side
    · exact ⟨entityNamed_lt ha, entityNamed_lt hb⟩
    · exact ⟨entityNamed_lt hb, entityNamed_lt ha⟩
  | _ => rw [hk] at hr; cases hr

/-- The target of an edge is what a name denotes in front of its token. -/
theorem target_of_edgeAt {e : Edge} (h : d.edgeAt k = some e) :
    ∃ name, d.entityNamed k name = some e.target := by
  obtain ⟨t, ht, hr⟩ := exists_relation_of_edgeAt h
  cases hk : t.kind with
  | relate relation =>
    obtain ⟨_, operand, _, _, _, hn, rfl⟩ := (edgeAt_keyword ht hk).mp h
    exact ⟨operand.value, hn⟩
  | arrow side =>
    obtain ⟨_, left, _, right, _, _, _, hb, _, ha, rfl⟩ := (edgeAt_arrow ht hk).mp h
    cases side
    · exact ⟨left.value, hb⟩
    · exact ⟨right.value, ha⟩
  | _ => rw [hk] at hr; cases hr

theorem edge_lt_of_mem {e : Edge} (h : e ∈ d.edgesBefore k) :
    e.child < (d.declarationsBefore k).length ∧ e.target < (d.declarationsBefore k).length := by
  obtain ⟨j, hj, he⟩ := List.mem_filterMap.mp h
  have hle := (declarationsBefore_mono d (Nat.le_of_lt (List.mem_range.mp hj))).length_le
  obtain ⟨hc, ht⟩ := edgeAt_lt he
  exact ⟨Nat.lt_of_lt_of_le hc hle, Nat.lt_of_lt_of_le ht hle⟩

/-! ## The graph grows with it -/

theorem graphBefore_eq_described (d : Diagram) (k : Nat) :
    d.graphBefore k = .described (d.declarationsBefore k) (d.edgesBefore k) := rfl

/-- A token that declares nothing and draws no edge leaves the graph alone. -/
theorem graphBefore_succ {t : Token} (ht : d[k]? = some t) (hd : t.kind.isClassLike = false)
    (hr : t.kind.isRelation = false) : d.graphBefore (k + 1) = d.graphBefore k := by
  simp only [graphBefore, declarationsBefore_succ, edgesBefore_succ, declarationAt_eq_none ht hd,
    edgeAt_eq_none ht hr, Option.toList_none, List.append_nil]

/-- A new entity has no edges yet. -/
theorem graphBefore_succ_of_declaration {e : Declaration} (he : d.declarationAt k = some e) :
    d.graphBefore (k + 1) =
      (d.graphBefore k).declare ⟨e.name, .str e.package, e.kind, [], []⟩ := by
  obtain ⟨keyword, _, hk, hkind, _⟩ := declarationAt_eq_some_iff.mp he
  have drawn := edgeAt_eq_none hk (by rw [hkind]; rfl)
  rw [graphBefore_eq_described, graphBefore_eq_described, declarationsBefore_succ, edgesBefore_succ,
    he, drawn, Option.toList_some, Option.toList_none, List.append_nil,
    Graph.described_declare fun _ h => (edge_lt_of_mem h).1]

theorem graphBefore_succ_of_edge {e : Edge} (he : d.edgeAt k = some e) :
    d.graphBefore (k + 1) = (d.graphBefore k).relate e.child e.relation e.target := by
  obtain ⟨word, hw, hr⟩ := exists_relation_of_edgeAt he
  have declared := declarationAt_eq_none hw (TokenKind.isClassLike_of_isRelation hr)
  rw [graphBefore_eq_described, graphBefore_eq_described, declarationsBefore_succ, edgesBefore_succ,
    he, declared, Option.toList_some, Option.toList_none, List.append_nil, Graph.described_relate]

theorem registry_graphBefore (d : Diagram) (k : Nat) :
    (d.graphBefore k).registry = List.range (d.declarationsBefore k).length := rfl

theorem size_graphBefore (d : Diagram) (k : Nat) :
    (d.graphBefore k).size = (d.declarationsBefore k).length := List.length_range

theorem size_entities_graphBefore (d : Diagram) (k : Nat) :
    (d.graphBefore k).entities.size = (d.declarationsBefore k).length := by
  simp [graphBefore]

theorem entity_graphBefore {i : Nat} {e : Declaration}
    (h : (d.declarationsBefore k)[i]? = some e) :
    (d.graphBefore k).entity i = e.entity (d.edgesBefore k) i := Graph.entity_described _ h

theorem nameOf_graphBefore {i : Nat} {e : Declaration}
    (h : (d.declarationsBefore k)[i]? = some e) : (d.graphBefore k).nameOf i = e.name :=
  Graph.nameOf_described _ h

theorem find?_graphBefore (d : Diagram) (k : Nat) (name : Text) :
    (d.graphBefore k).find? name = d.entityNamed k name := Graph.find?_described _ _ name

theorem last?_graphBefore (d : Diagram) (k : Nat) :
    (d.graphBefore k).last? = d.lastDeclared k := by
  unfold Graph.last? graphBefore lastDeclared
  cases (d.declarationsBefore k).length with
  | zero => rfl
  | succ n =>
    simp only [List.range_succ, List.getLast?_append, List.getLast?_singleton, Option.some_or]

end Diagram

end ClassGraph
