import ClassGraph.Proofs.Reading

/-! # The texts that are accepted

A diagram is well formed if its tokens split into items, if its arrows are of
the families that relate classes, if its operands are declared in front of
them, and if no package is left open. The parser keeps a waiting name, two
tokens of lookback and the last operand instead; it accepts the same diagrams.
-/

namespace ClassGraph

namespace Diagram

/-- Tokens split into items behind a token. The name that a relation may begin
with is `lead`; an arrow needs a name directly in front of it, of its own item
or of the one before. -/
inductive Items : Option Token → List Token → Prop
  | nil {previous : Option Token} : Items previous []
  | start {previous : Option Token} {t : Token} {ts : List Token} (kind : t.kind = .start)
      (rest : Items (some t) ts) : Items previous (t :: ts)
  | brace {previous : Option Token} {t : Token} {ts : List Token}
      (kind : t.kind = .openBrace ∨ t.kind = .closeBrace) (rest : Items (some t) ts) :
      Items previous (t :: ts)
  | declaration {previous : Option Token} {keyword name : Token} {kind : EntityKind}
      {ts : List Token} (kind_eq : keyword.kind = .declare kind) (name_kind : name.kind = .name)
      (rest : Items (some name) ts) : Items previous (keyword :: name :: ts)
  | package {previous : Option Token} {keyword name brace : Token} {ts : List Token}
      (kind : keyword.kind = .package) (name_kind : name.kind = .name)
      (brace_kind : brace.kind = .openBrace) (rest : Items (some brace) ts) :
      Items previous (keyword :: name :: brace :: ts)
  | keyword {previous lead : Option Token} {word name : Token} {relation : Relation}
      {ts : List Token} (lead_kind : ∀ t ∈ lead, t.kind = .name)
      (kind : word.kind = .relate relation) (name_kind : name.kind = .name)
      (rest : Items (some name) ts) : Items previous (lead.toList ++ word :: name :: ts)
  | arrow {previous lead : Option Token} {left word name : Token} {side : Side}
      {ts : List Token} (lead_kind : ∀ t ∈ lead, t.kind = .name) (kind : word.kind = .arrow side)
      (behind : lead.or previous = some left) (left_kind : left.kind = .name)
      (name_kind : name.kind = .name) (rest : Items (some name) ts) :
      Items previous (lead.toList ++ word :: name :: ts)

/-- The grammar of diagrams. -/
structure WellFormed (d : Diagram) : Prop where
  items : Items none d
  families : ∀ t ∈ d, ∀ side, t.kind = .arrow side →
    Arrow.family side t.text = .inheritance ∨ Arrow.family side t.text = .realization
  operands : ∀ k word name, d[k]? = some word → word.kind.isRelation = true →
    d.nameBefore k = some name ∨ d.nameAt (k + 1) = some name →
      ∃ e ∈ d.declarationsBefore k, e.name = name.value
  subjects : ∀ k word relation, d[k]? = some word → word.kind = .relate relation →
    d.nameBefore k = none → d.declarationsBefore k ≠ []
  closed : ∀ name, .package name ∉ d.openFrames d.length

variable {d : Diagram} {k : Nat}

theorem exists_entityNamed_iff {name : Text} :
    (∃ i, d.entityNamed k name = some i) ↔ ∃ e ∈ d.declarationsBefore k, e.name = name := by
  unfold entityNamed
  rw [← Option.isSome_iff_exists, List.findIdx?_isSome, List.any_eq_true]
  simp only [beq_iff_eq]

theorem exists_lastDeclared_iff :
    (∃ i, d.lastDeclared k = some i) ↔ d.declarationsBefore k ≠ [] := by
  unfold lastDeclared
  cases d.declarationsBefore k <;> simp

/-! ## Edges of a well-formed diagram -/

/-- Every keyword has a subject: going back along its chain ends at a relation
that continues no other one. -/
theorem WellFormed.exists_subjectAt (h : d.WellFormed) {word : Token} {relation : Relation}
    (hw : d[k]? = some word) (hk : word.kind = .relate relation) :
    ∃ i, d.subjectAt k = some i := by
  have own {k : Nat} {word : Token} {relation : Relation} (hw : d[k]? = some word)
      (hk : word.kind = .relate relation) : ∃ i, d.ownSubjectAt k = some i := by
    unfold ownSubjectAt
    cases hn : d.nameBefore k with
    | some name =>
      exact exists_entityNamed_iff.mpr (h.operands k word name hw (by rw [hk]; rfl) (.inl hn))
    | none => exact exists_lastDeclared_iff.mpr (h.subjects k word relation hw hk hn)
  fun_induction subjectAt d k generalizing word relation with
  | case1 => exact own hw hk
  | case2 => exact own hw hk
  | case3 k ho ih =>
    obtain ⟨word, relation, _, hw, hk, _⟩ := isOperandAt_succ_iff.mp ho
    exact ih hw hk
  | case4 k _ => exact own hw hk

theorem WellFormed.exists_relation (h : d.WellFormed) {arrow : Token} {side : Side}
    (ha : d[k]? = some arrow) (hk : arrow.kind = .arrow side) :
    ∃ relation, (Arrow.family side arrow.text).relation? = some relation := by
  rcases h.families arrow (List.mem_of_getElem? ha) side hk with hf | hf
  · exact ⟨.inherits, by rw [hf]; rfl⟩
  · exact ⟨.realizes, by rw [hf]; rfl⟩

theorem of_cons_eq_drop {t : Token} {ts : List Token} (h : t :: ts = d.drop k) :
    d[k]? = some t ∧ ts = d.drop (k + 1) := by
  constructor
  · rw [← List.head?_drop, ← h]; rfl
  · rw [← List.tail_drop, ← h]; rfl

end Diagram

namespace Builder

open Diagram

variable {d : Diagram} {k : Nat} {b : Builder}

/-! ## A well-formed diagram is read to its end -/

/-- A relation may begin with a name of its own, which then waits. -/
theorem Reading.lead (h : Reading d k b) (free : b.pending = none) {lead : Option Token}
    {ts : List Token} (kind : ∀ t ∈ lead, t.kind = .name) (hd : lead.toList ++ ts = d.drop k) :
    ∃ m b', Reaches b b' ∧ Reading d m b' ∧ ts = d.drop m ∧
      lead.or (d.tokenBefore k) = d.tokenBefore m := by
  cases lead with
  | none => exact ⟨k, b, .refl, h, hd, rfl⟩
  | some t =>
    obtain ⟨ht, hd⟩ := of_cons_eq_drop hd
    have hk := kind t rfl
    have step := Reads.name free (h.next.trans ht) hk
    exact ⟨k + 1, _, .single step.proceeds, h.name ht hk, hd, ht.symm⟩

/-- Item by item the reader goes on to the end. An item is one statement, or two
if a relation brings a name of its own. -/
theorem Reading.reaches_end (hd : d.Nodup) (wf : d.WellFormed) {previous : Option Token}
    {ts : List Token} (items : Items previous ts) (h : Reading d k b) (free : b.pending = none)
    (rest : ts = d.drop k) (behind : previous = d.tokenBefore k) :
    ∃ m, Reaches b m ∧ Reading d d.length m ∧ m.pending = none := by
  induction items generalizing k b with
  | nil =>
    have hk : k = d.length := Nat.le_antisymm h.le (List.drop_eq_nil_iff.mp rest.symm)
    exact ⟨b, .refl, hk ▸ h, free⟩
  | start kind _ ih =>
    obtain ⟨ht, rest⟩ := of_cons_eq_drop rest
    have step := Reads.start free (h.next.trans ht) kind
    obtain ⟨m, run, hm⟩ := ih (h.start ht kind) free rest ht.symm
    exact ⟨m, .head step.proceeds run, hm⟩
  | brace kind _ ih =>
    obtain ⟨ht, rest⟩ := of_cons_eq_drop rest
    rcases kind with kind | kind
    · have step := Reads.openBrace free (h.next.trans ht) kind
      obtain ⟨m, run, hm⟩ := ih (h.openBrace ht kind) free rest ht.symm
      exact ⟨m, .head step.proceeds run, hm⟩
    · have step := Reads.closeBrace free (h.next.trans ht) kind
      obtain ⟨m, run, hm⟩ := ih (h.closeBrace ht kind) (by rw [closeBrace_eq]; exact free)
        rest ht.symm
      exact ⟨m, .head step.proceeds run, hm⟩
  | declaration kind name_kind _ ih =>
    obtain ⟨ht, rest⟩ := of_cons_eq_drop rest
    obtain ⟨hn, rest⟩ := of_cons_eq_drop rest
    have named := nameAt_eq_some_iff.mpr ⟨hn, name_kind⟩
    have step := Reads.declaration free (h.next.trans ht) kind ((h.pass_next _).trans hn) name_kind
    obtain ⟨m, run, hm⟩ := ih (h.declaration ht kind named) free rest hn.symm
    exact ⟨m, .head step.proceeds run, hm⟩
  | package kind name_kind brace_kind _ ih =>
    obtain ⟨ht, rest⟩ := of_cons_eq_drop rest
    obtain ⟨hn, rest⟩ := of_cons_eq_drop rest
    obtain ⟨hb, rest⟩ := of_cons_eq_drop rest
    have named := nameAt_eq_some_iff.mpr ⟨hn, name_kind⟩
    have step := Reads.package free (h.next.trans ht) kind ((h.pass_next _).trans hn) name_kind
      ((h.pass_pass_next _ _).trans hb) brace_kind
    obtain ⟨m, run, hm⟩ := ih (h.package ht kind named hb brace_kind) free rest hb.symm
    exact ⟨m, .head step.proceeds run, hm⟩
  | keyword lead_kind kind name_kind _ ih =>
    obtain ⟨j, c, led, hc, rest, _⟩ := h.lead free lead_kind rest
    obtain ⟨ht, rest⟩ := of_cons_eq_drop rest
    obtain ⟨hn, rest⟩ := of_cons_eq_drop rest
    have named := nameAt_eq_some_iff.mpr ⟨hn, name_kind⟩
    obtain ⟨child, subject⟩ := wf.exists_subjectAt ht kind
    obtain ⟨target, resolved⟩ := exists_entityNamed_iff.mpr
      (wf.operands j _ _ ht (by rw [kind]; rfl) (.inr named))
    have step := Reads.keyword (hc.next.trans ht) kind ((hc.subject hd).trans subject)
      ((hc.pass_next _).trans hn) name_kind ((hc.find? _).trans resolved)
    obtain ⟨m, run, hm⟩ := ih (hc.keyword ht kind subject named resolved) rfl rest hn.symm
    exact ⟨m, led.trans (.head step.proceeds run), hm⟩
  | arrow lead_kind kind left_eq left_kind name_kind _ ih =>
    obtain ⟨j, c, led, hc, rest, before_eq⟩ := h.lead free lead_kind rest
    obtain ⟨ht, rest⟩ := of_cons_eq_drop rest
    obtain ⟨hn, rest⟩ := of_cons_eq_drop rest
    -- the grammar's name in front of the arrow is the token that was read last
    rw [← behind, left_eq] at before_eq
    have left := nameBefore_eq_some_iff.mpr ⟨before_eq.symm, left_kind⟩
    have right := nameAt_eq_some_iff.mpr ⟨hn, name_kind⟩
    have declared := fun name => wf.operands j _ name ht (by rw [kind]; rfl)
    obtain ⟨relation, family⟩ := wf.exists_relation ht kind
    obtain ⟨before, left_resolved⟩ := exists_entityNamed_iff.mpr (declared _ (.inl left))
    obtain ⟨after, right_resolved⟩ := exists_entityNamed_iff.mpr (declared _ (.inr right))
    have edge := (edgeAt_arrow ht kind).mpr ⟨relation, _, before, _, after, family, left,
      left_resolved, right, right_resolved, rfl⟩
    have step := Reads.arrow (hc.next.trans ht) kind (hc.latest.trans before_eq.symm) left_kind
      family ((hc.find? _).trans left_resolved) ((hc.pass_next _).trans hn) name_kind
      ((hc.find? _).trans right_resolved)
    obtain ⟨m, run, hm⟩ := ih (hc.arrow ht kind right edge) rfl rest hn.symm
    exact ⟨m, led.trans (.head step.proceeds run), hm⟩

/-! ## A diagram that is read to its end is well formed -/

theorem ahead_of_next {t : Token} (h : b.next? = some t) :
    b.feed.ahead = t :: (b.pass t).feed.ahead := by
  obtain ⟨ts, hts⟩ := List.head?_eq_some_iff.mp h
  show _ = t :: b.feed.ahead.tail
  rw [hts]; rfl

/-- The tokens ahead split into items. A name that waits begins the first of them. -/
structure Splits (b : Builder) : Prop where
  free : b.pending = none → Items b.feed.latest b.feed.ahead
  waiting : ∀ t previous, b.pending = some t → t.kind = .name → Items previous (t :: b.feed.ahead)

theorem splits_of_free (free : b.pending = none) (h : Items b.feed.latest b.feed.ahead) :
    b.Splits where
  free _ := h
  waiting := by intro t _ ht; rw [free] at ht; cases ht

/-- A relation splits off with a name that waits for it or without one. -/
theorem splits_of_relation {ts : List Token} (ahead : b.feed.ahead = ts)
    (items : ∀ lead previous, (∀ t ∈ lead, t.kind = .name) →
      (lead = none → previous = b.feed.latest) → Items previous (lead.toList ++ ts)) :
    b.Splits where
  free := by
    intro _
    rw [ahead]
    exact items none _ (by intro t ht; cases ht) fun _ => rfl
  waiting := by
    intro t previous _ hk
    rw [ahead]
    refine items (some t) previous ?_ ?_
    · intro u hu; cases hu; exact hk
    · intro h; cases h

theorem Reads.splits {b' : Builder} (h : Reads b b') (rest : b'.Splits) : b.Splits := by
  cases h with
  | start free next kind =>
    refine splits_of_free free ?_
    rw [ahead_of_next next]
    exact .start kind (rest.free free)
  | name free next kind =>
    refine splits_of_free free ?_
    rw [ahead_of_next next]
    exact rest.waiting _ _ rfl kind
  | openBrace free next kind =>
    refine splits_of_free free ?_
    rw [ahead_of_next next]
    exact .brace (.inl kind) (rest.free free)
  | closeBrace free next kind =>
    refine splits_of_free free ?_
    rw [ahead_of_next next]
    rw [closeBrace_eq] at rest
    exact .brace (.inr kind) (rest.free free)
  | declaration free next kind name_next name_kind =>
    refine splits_of_free free ?_
    rw [ahead_of_next next, ahead_of_next name_next]
    exact .declaration kind name_kind (rest.free free)
  | package free next kind name_next name_kind brace_next brace_kind =>
    refine splits_of_free free ?_
    rw [ahead_of_next next, ahead_of_next name_next, ahead_of_next brace_next]
    exact .package kind name_kind brace_kind (rest.free free)
  | keyword next kind _ name_next name_kind _ =>
    have items := rest.free rfl
    refine splits_of_relation (ahead_of_next next) ?_
    intro lead previous lead_kind _
    rw [ahead_of_next name_next]
    exact .keyword lead_kind kind name_kind items
  | arrow next kind left_eq left_kind _ _ name_next name_kind _ =>
    have items := rest.free rfl
    refine splits_of_relation (ahead_of_next next) ?_
    intro lead previous lead_kind behind
    rw [ahead_of_next name_next]
    -- the name in front of the arrow is its own, or else the token read last
    cases lead with
    | none => exact .arrow lead_kind kind (behind rfl ▸ left_eq) left_kind name_kind items
    | some t => exact .arrow lead_kind kind rfl (lead_kind t rfl) name_kind items

theorem splits_of_reads {m : Builder} (run : Relation.ReflTransGen Reads b m)
    (exhausted : m.feed.ahead = []) (free : m.pending = none) : b.Splits := by
  induction run using Relation.ReflTransGen.head_induction_on with
  | refl => exact splits_of_free free (exhausted ▸ .nil)
  | head first _ ih => exact first.splits ih

end Builder

namespace Diagram

variable {d : Diagram} {k : Nat}

/-- A keyword has a subject of its own or continues the relation in front of it. -/
theorem subjectAt_eq (d : Diagram) (k : Nat) : d.subjectAt k = d.ownSubjectAt k ∨
    ∃ j word relation name, k = j + 2 ∧ d[j]? = some word ∧ word.kind = .relate relation ∧
      d.nameAt (j + 1) = some name := by
  match k with
  | 0 => exact .inl rfl
  | 1 => exact .inl rfl
  | j + 2 =>
    rw [subjectAt]
    by_cases ho : d.isOperandAt (j + 1) = true
    · obtain ⟨word, relation, name, hw, hk, hn⟩ := isOperandAt_succ_iff.mp ho
      exact .inr ⟨j, word, relation, name, rfl, hw, hk, hn⟩
    · rw [if_neg ho]; exact .inl rfl

/-- The operands of a relation that draws an edge are declared. What a chained
keyword has in front of it is the operand of another relation. -/
theorem declared_of_saysAt (said : ∀ k, d.SaysAt k) {word name : Token} (hw : d[k]? = some word)
    (hr : word.kind.isRelation = true)
    (hn : d.nameBefore k = some name ∨ d.nameAt (k + 1) = some name) :
    ∃ e ∈ d.declarationsBefore k, e.name = name.value := by
  rw [← exists_entityNamed_iff]
  obtain ⟨e, he⟩ := (said k word hw).2 hr
  cases hk : word.kind with
  | relate relation =>
    obtain ⟨child, operand, target, hs, ho, ht, _⟩ := (edgeAt_keyword hw hk).mp he
    rcases hn with hn | hn
    · rcases d.subjectAt_eq k with own | ⟨j, chained, _, left, rfl, hc, hck, hl⟩
      · rw [own, ownSubjectAt, hn] at hs
        exact ⟨child, hs⟩
      · obtain ⟨_, hce⟩ := (said j chained hc).2 (by rw [hck]; rfl)
        obtain ⟨_, operand, target, _, ho, ht, _⟩ := (edgeAt_keyword hc hck).mp hce
        cases ho.symm.trans hn
        exact ⟨target, entityNamed_mono ht (by omega)⟩
    · cases ho.symm.trans hn
      exact ⟨target, ht⟩
  | arrow side =>
    obtain ⟨_, left, before, right, after, _, hl, hb, hright, ha, _⟩ := (edgeAt_arrow hw hk).mp he
    rcases hn with hn | hn
    · cases hl.symm.trans hn
      exact ⟨before, hb⟩
    · cases hright.symm.trans hn
      exact ⟨after, ha⟩
  | _ => rw [hk] at hr; cases hr

theorem WellFormed.of_saysAt (items : Items none d) (said : ∀ k, d.SaysAt k)
    (closed : Frame.AllPlain (d.openFrames d.length)) : d.WellFormed where
  items := items
  families := by
    intro t ht side hk
    obtain ⟨k, hk'⟩ := List.mem_iff_getElem?.mp ht
    obtain ⟨e, he⟩ := (said k t hk').2 (by rw [hk]; rfl)
    obtain ⟨relation, _, _, _, _, family, _⟩ := (edgeAt_arrow hk' hk).mp he
    cases hf : Arrow.family side t.text <;> rw [hf] at family <;> cases family
    · exact .inl rfl
    · exact .inr rfl
  operands := fun _ _ _ hw hr hn => declared_of_saysAt said hw hr hn
  subjects := by
    intro k word relation hw hk hn
    obtain ⟨e, he⟩ := (said k word hw).2 (by rw [hk]; rfl)
    obtain ⟨child, _, _, hs, _⟩ := (edgeAt_keyword hw hk).mp he
    rcases d.subjectAt_eq k with own | ⟨j, _, _, left, rfl, _, _, hl⟩
    · rw [own, ownSubjectAt, hn] at hs
      exact exists_lastDeclared_iff.mp ⟨child, hs⟩
    · cases hn.symm.trans hl
  closed := closed

end Diagram

namespace Builder

open Diagram

theorem wellFormed_of_parse {source : Text} {g : Graph} (h : parse source = .ok g) :
    WellFormed (Token.stream source).1 := by
  obtain ⟨m, _, run, hend, _, _⟩ := reaches_of_run h
  have reads := (run.reads fun t ht => Token.kind_ne_finish_of_mem_stream ht).1
  have items : Items none (Token.stream source).1 :=
    (splits_of_reads reads hend.exhausted hend.free).free rfl
  obtain ⟨d, _, hs, _, said, closed⟩ := parsed h
  rw [hs] at items ⊢
  exact .of_saysAt items said closed

/-- A well-formed text is the graph that its tokens describe. -/
theorem parse_of_wellFormed {source : Text} {d : Diagram} {mark : Token.EndMark}
    (hs : Token.stream source = (d, .ok mark)) (wf : d.WellFormed) :
    parse source = .ok (d.graphBefore d.length) := by
  have stream : (Token.stream source).1 = d := congrArg Prod.fst hs
  have start : Reading d 0 (.ofText source) := stream ▸ .ofText source
  obtain ⟨m, run, hm, free⟩ :=
    start.reaches_end (stream ▸ Token.nodup_stream source) wf wf.items rfl rfl rfl
  have ending := (run.reads fun t ht => Token.kind_ne_finish_of_mem_stream ht).2
  have hend : m.AtEnd mark := by
    refine ⟨?_, ending.trans ?_, free⟩
    · rw [hm.ahead, List.drop_length]
    · exact congrArg Prod.snd hs
  have result : parse source = _ := run.run_eq ▸ hend.run_eq
  rwa [hm.encloses.packages_eq_nil_iff.mpr wf.closed, hm.graph] at result

end Builder

/-- A text that can be read as tokens is accepted if and only if the tokens in
front of its end are well formed. -/
theorem parses_iff_wellFormed {source : Text} {tokens : List Token}
    (h : tokenize source = .ok tokens) :
    (∃ g, parse source = .ok g) ↔
      Diagram.WellFormed (tokens.takeWhile (·.kind ≠ .finish)) := by
  obtain ⟨mark, hs⟩ := stream_of_tokenize h
  constructor
  · rintro ⟨g, hg⟩
    have wf := Builder.wellFormed_of_parse hg
    rwa [hs] at wf
  · exact fun wf => ⟨_, Builder.parse_of_wellFormed hs wf⟩

/-- A chain of relations after a name of its own is well formed. A name that
waits for a relation in vain, or that is declared only later, is not. -/
theorem wellFormed_of_chain :
    (∃ tokens, tokenize ("class A \x7b \x7d interface B A implements B extends A <|-- A" : String) =
        .ok tokens ∧ Diagram.WellFormed (tokens.takeWhile (·.kind ≠ .finish))) ∧
    (∃ tokens, tokenize ("class A A class B" : String) = .ok tokens ∧
      ¬ Diagram.WellFormed (tokens.takeWhile (·.kind ≠ .finish))) ∧
    ∃ tokens, tokenize ("class A extends B class B" : String) = .ok tokens ∧
      ¬ Diagram.WellFormed (tokens.takeWhile (·.kind ≠ .finish)) := by
  have refused {source : Text} (ht : (tokenize source).isOk = true)
      (hp : (parse source).isOk = false) : ∃ tokens, tokenize source = .ok tokens ∧
        ¬ Diagram.WellFormed (tokens.takeWhile (·.kind ≠ .finish)) := by
    obtain ⟨tokens, ht⟩ := exists_ok_of_isOk ht
    refine ⟨tokens, ht, fun wf => ?_⟩
    obtain ⟨g, hg⟩ := (parses_iff_wellFormed ht).mpr wf
    rw [hg] at hp; cases hp
  refine ⟨?_, refused (by decide +kernel) (by decide +kernel),
    refused (by decide +kernel) (by decide +kernel)⟩
  obtain ⟨tokens, ht⟩ := exists_ok_of_isOk (e := tokenize
    ("class A \x7b \x7d interface B A implements B extends A <|-- A" : String)) (by decide +kernel)
  exact ⟨tokens, ht, (parses_iff_wellFormed ht).mp (exists_ok_of_isOk (by decide +kernel))⟩

end ClassGraph
