import ClassGraph.Proofs.Alike
import ClassGraph.Proofs.Mirror
import ClassGraph.Proofs.Resumption

/-! # The forms of a relation

That one class extends or implements another can be written with a keyword, with
an arrow to the right and with an arrow to the left. The three forms find their
operands in different places and leave different things behind: the keyword
records its operand, and the last token is the one or the other name. A reader who
goes on with anything but a relation does not see the difference.
-/

namespace ClassGraph

/-- The ways to write that the class `child` is related to the class `target`. -/
inductive Wording (relation : Relation) (child target : Text) : List Token → Prop
  | keyword {x word y : Token} (subject : x.kind = .name ∧ x.value = child)
      (kind : word.kind = .relate relation) (operand : y.kind = .name ∧ y.value = target) :
      Wording relation child target [x, word, y]
  | right {x arrow y : Token} (before : x.kind = .name ∧ x.value = child)
      (kind : arrow.kind = .arrow .right)
      (family : (Arrow.family .right arrow.text).relation? = some relation)
      (after : y.kind = .name ∧ y.value = target) : Wording relation child target [x, arrow, y]
  | left {x arrow y : Token} (before : y.kind = .name ∧ y.value = target)
      (kind : arrow.kind = .arrow .left)
      (family : (Arrow.family .left arrow.text).relation? = some relation)
      (after : x.kind = .name ∧ x.value = child) : Wording relation child target [y, arrow, x]

namespace Builder

/-- Tokens that were not read yet: none of them occurs twice, and none is the
recorded operand. -/
structure Fresh (b : Builder) (tokens : List Token) : Prop where
  nodup : tokens.Nodup
  apart : ∀ operand subject, b.chain = some (operand, subject) → operand ∉ tokens

/-- A state with other tokens ahead. -/
def facing (b : Builder) (tokens : List Token) (ending : Ending) : Builder :=
  { b with feed := { b.feed with ahead := tokens, ending } }

/-- What a relation leaves behind: an edge, and nothing that counts for the tokens
ahead. -/
structure Related (b : Builder) (edge : Edge) (rest : List Token) (ending : Ending) (m : Builder) :
    Prop where
  graph : m.graph = b.graph.draw edge
  packages : m.packages = b.packages
  depth : m.depth = b.depth
  pending : m.pending = none
  ahead : m.feed.ahead = rest
  ending : m.feed.ending = ending
  recorded : ∀ t ∈ rest, m.recorded t = none

variable {b m m' : Builder} {relation : Relation} {child target : Text} {i j : Nat}
  {words words' rest rest' : List Token} {ending ending' : Ending} {edge : Edge}

theorem recorded_of_apart {t : Token} (h : ∀ operand subject, b.chain = some (operand, subject) →
    operand ≠ t) : b.recorded t = none := by
  unfold recorded
  cases hc : b.chain with
  | none => rfl
  | some chain => exact if_neg fun e => h chain.1 chain.2 hc e.symm

theorem Fresh.recorded {tokens : List Token} (h : b.Fresh tokens) {t : Token} (ht : t ∈ tokens) :
    b.recorded t = none := recorded_of_apart fun _ _ hc e => h.apart _ _ hc (e ▸ ht)

/-- A name behind which no relation is recorded is its own subject. -/
theorem subjectBehind_of_recorded {x : Token} (recorded : b.recorded x = none)
    (hx : x.kind = .name) : b.subjectBehind (some x) = b.graph.find? x.value := by
  have own : b.ownSubject (some x) = b.graph.find? x.value := if_pos hx
  unfold Builder.recorded at recorded
  unfold subjectBehind
  cases hc : b.chain with
  | none => exact own
  | some chain =>
    obtain ⟨operand, subject⟩ := chain
    by_cases h : x = operand
    · simp [hc, h] at recorded
    · simp only [h, if_false]
      exact own

/-- Behind two forms of a relation the tokens ahead are built on in the same way. -/
theorem Related.abreast (h : Related b edge rest ending m) (h' : Related b edge rest' ending' m')
    (same : rest.length = rest'.length) (endings : ending.isOk = ending'.isOk)
    (next : ∀ t ∈ rest.head?, t.kind.isRelation = false) :
    Abreast (Token.Corresponds rest rest') m m' where
  graph := h.graph.trans h'.graph.symm
  packages := h.packages.trans h'.packages.symm
  depth := h.depth.trans h'.depth.symm
  pending := by
    rw [h.pending, h'.pending]
    exact .none
  recorded := by
    rintro t u ⟨_, ht, hu⟩
    rw [h.recorded t (List.mem_of_getElem? ht), h'.recorded u (List.mem_of_getElem? hu)]
  ahead := by
    rw [h.ahead, h'.ahead]
    exact List.forall₂_iff_get.mpr ⟨same, fun i hi hi' =>
      ⟨i, List.getElem?_eq_getElem hi, List.getElem?_eq_getElem hi'⟩⟩
  ending := by rw [h.ending, h'.ending, endings]
  latest t ht relates := by
    rw [next?, h.ahead] at ht
    rw [next t ht] at relates
    cases relates

/-! ## Tokens ahead are fresh -/

theorem Fresh.of_suffix {tokens tokens' : List Token} (h : b.Fresh tokens)
    (suffix : tokens' <:+ tokens) : b.Fresh tokens' :=
  ⟨h.nodup.sublist suffix.sublist, fun o s hc hm => h.apart o s hc (suffix.subset hm)⟩

theorem Fresh.of_chain {tokens : List Token} (h : b.Fresh tokens) (chain : m.chain = b.chain) :
    m.Fresh tokens := ⟨h.nodup, by rw [chain]; exact h.apart⟩

/-- A statement that is read leaves its tokens behind, a recorded operand among
them. -/
theorem Fresh.reads (h : b.Fresh b.feed.ahead) (hr : Reads b m) : m.Fresh m.feed.ahead := by
  have later := h.of_suffix hr.feed_suffix.1
  cases hr with
  | closeBrace => exact later.of_chain (by rw [closeBrace_eq]; rfl)
  | @keyword word operand _ _ _ next _ _ operand_next =>
    refine ⟨later.nodup, fun o s hc hm => ?_⟩
    cases hc
    obtain ⟨behind, ha⟩ := List.head?_eq_some_iff.mp operand_next
    have once := (List.tail_sublist b.feed.ahead).nodup h.nodup
    rw [show b.feed.ahead.tail = _ from ha] at once
    change operand ∈ b.feed.ahead.tail.tail at hm
    rw [show b.feed.ahead.tail = _ from ha] at hm
    exact (List.nodup_cons.mp once).1 hm
  | _ => exact later.of_chain rfl

theorem Fresh.reaches (h : b.Fresh b.feed.ahead) (unmarked : ∀ t ∈ b.feed.ahead, t.kind ≠ .finish)
    (hr : Reaches b m) : m.Fresh m.feed.ahead := by
  have read := (hr.reads unmarked).1
  clear hr
  induction read with
  | refl => exact h
  | tail _ last ih => exact ih.reads last

/-- Whatever state the runs on a text come to, the tokens ahead are fresh. -/
theorem fresh_of_resumed {source : Text} {runs : Nat} (hr : Reaches (resumed source runs) m) :
    m.Fresh m.feed.ahead := by
  have unmarked (n : Nat) : ∀ t ∈ (resumed source n).feed.ahead, t.kind ≠ .finish := fun t ht =>
    Token.kind_ne_finish_of_mem_stream ((sound_resumed source n).ahead.subset ht)
  refine Fresh.reaches ?_ (unmarked runs) hr
  clear hr
  induction runs with
  | zero => exact ⟨Token.nodup_stream source, nofun⟩
  | succ n ih =>
    obtain ⟨last, reach, spares, _⟩ := run_stops (resumed source n)
    exact ((ih.reaches (unmarked n) reach).of_suffix spares.ahead).of_chain spares.chain

end Builder

open Builder

theorem Wording.reaches {b : Builder} {relation : Relation} {child target : Text} {i j : Nat}
    {words rest : List Token} {ending : Ending} (h : Wording relation child target words)
    (free : b.pending = none) (hi : b.graph.find? child = some i)
    (hj : b.graph.find? target = some j) (fresh : b.Fresh (words ++ rest)) :
    ∃ m, Reaches (b.facing (words ++ rest) ending) m ∧
      Related b ⟨i, relation, j⟩ rest ending m := by
  have kept : ∀ t ∈ rest, b.recorded t = none := fun t ht =>
    fresh.recorded (List.mem_append_right _ ht)
  cases h with
  | @keyword x word y subject kind operand =>
    obtain ⟨hx, rfl⟩ := subject
    obtain ⟨hy, rfl⟩ := operand
    have first : Reads (b.facing ([x, word, y] ++ rest) ending) _ := .name free rfl hx
    have recorded : b.recorded x = none := fresh.recorded List.mem_cons_self
    have second : Reads _ _ := .keyword (b := { (b.facing ([x, word, y] ++ rest) ending).pass x with
      pending := some x }) rfl kind ((subjectBehind_of_recorded recorded hx).trans hi) rfl hy hj
    refine ⟨_, .tail (.single first.proceeds) second.proceeds,
      rfl, rfl, rfl, rfl, rfl, rfl, fun t ht => recorded_of_apart fun o s hc e => ?_⟩
    cases hc
    have once := fresh.nodup
    simp only [List.cons_append, List.nil_append, List.nodup_cons] at once
    exact once.2.2.1 (e ▸ ht)
  | @right x arrow y before kind family after =>
    obtain ⟨hx, rfl⟩ := before
    obtain ⟨hy, rfl⟩ := after
    have first : Reads (b.facing ([x, arrow, y] ++ rest) ending) _ := .name free rfl hx
    have second : Reads _ _ := .arrow (b := { (b.facing ([x, arrow, y] ++ rest) ending).pass x with
      pending := some x }) rfl kind rfl hx family hi rfl hy hj
    exact ⟨_, .tail (.single first.proceeds) second.proceeds, rfl, rfl, rfl, rfl, rfl, rfl, kept⟩
  | @left x arrow y before kind family after =>
    obtain ⟨hy, rfl⟩ := before
    obtain ⟨hx, rfl⟩ := after
    have first : Reads (b.facing ([y, arrow, x] ++ rest) ending) _ := .name free rfl hy
    have second : Reads _ _ := .arrow (b := { (b.facing ([y, arrow, x] ++ rest) ending).pass y with
      pending := some y }) rfl kind rfl hy family hj rfl hx hi
    exact ⟨_, .tail (.single first.proceeds) second.proceeds, rfl, rfl, rfl, rfl, rfl, rfl, kept⟩

/-- All forms of a relation lead on in the same way, in every state in which no
name waits. -/
theorem Wording.interchangeable {b : Builder} {relation : Relation} {child target : Text}
    {i j : Nat} {words words' rest rest' : List Token} {ending ending' : Ending}
    (free : b.pending = none) (hi : b.graph.find? child = some i)
    (hj : b.graph.find? target = some j) (h : Wording relation child target words)
    (h' : Wording relation child target words') (fresh : b.Fresh (words ++ rest))
    (fresh' : b.Fresh (words' ++ rest')) (same : List.Forall₂ Token.SaysSame rest rest')
    (endings : ending.isOk = ending'.isOk) (next : ∀ t ∈ rest.head?, t.kind.isRelation = false) :
    ∃ m m', Reaches (b.facing (words ++ rest) ending) m ∧
      Reaches (b.facing (words' ++ rest') ending') m' ∧
      Related b ⟨i, relation, j⟩ rest ending m ∧ Related b ⟨i, relation, j⟩ rest' ending' m' ∧
      SameResult m.run.1 m'.run.1 := by
  obtain ⟨m, reach, related⟩ := h.reaches free hi hj fresh
  obtain ⟨m', reach', related'⟩ := h'.reaches free hi hj fresh'
  have pairing := Token.pairing_of_forall₂ same (List.nodup_append.mp fresh.nodup).2.1
    (List.nodup_append.mp fresh'.nodup).2.1
  exact ⟨m, m', reach, reach', related, related',
    (related.abreast related' same.length_eq endings next).run pairing⟩

/-- The forms of a relation between declared classes can be put for each other.
In every state in which no name waits, and in front of every remainder that
begins with no relation, each form draws the same edge, and the rest is built
to the same graph or to an error of one class. The tokens ahead of a state that
the runs on a text come to are fresh, as it is assumed of both texts here.

An arrow to the right that has a head is found in one piece, as is its mirror
image, and the two relate the same or are refused as arrows of one family. No
other arrow to the right has a head. -/
theorem relation_forms_agree :
    (∀ (b : Builder) (relation : Relation) (child target : Text) (i j : Nat)
      (words words' rest rest' : List Token) (ending ending' : Ending), b.pending = none →
      b.graph.find? child = some i → b.graph.find? target = some j →
      Wording relation child target words → Wording relation child target words' →
      b.Fresh (words ++ rest) → b.Fresh (words' ++ rest') →
      List.Forall₂ Token.SaysSame rest rest' → ending.isOk = ending'.isOk →
      (∀ t ∈ rest.head?, t.kind.isRelation = false) →
      ∃ m m', Reaches (b.facing (words ++ rest) ending) m ∧
        Reaches (b.facing (words' ++ rest') ending') m' ∧
        m.graph = b.graph.draw ⟨i, relation, j⟩ ∧ m'.graph = b.graph.draw ⟨i, relation, j⟩ ∧
        m.feed.ahead = rest ∧ m'.feed.ahead = rest' ∧ SameResult m.run.1 m'.run.1) ∧
    (∀ source runs m, Reaches (resumed source runs) m → m.Fresh m.feed.ahead) ∧
    (∀ (arrow : Arrow.Headed) (t u : Token), t.text = arrow.right → u.text = arrow.left →
      Token.recognize t.text = some (.arrow .right, t.text.length) ∧
      Token.recognize u.text = some (.arrow .left, u.text.length) ∧
      ((∃ relation, t.relation .right = .ok relation ∧ u.relation .left = .ok relation) ∨
        ∃ family, t.relation .right = .error (.unsupportedArrow family t) ∧
          u.relation .left = .error (.unsupportedArrow family u))) ∧
    ∀ text behind, Token.recognize (text ++ behind) = some (.arrow .right, text.length) →
      (∃ arrow : Arrow.Headed, arrow.right = text) ∨ text.getLast?.any Token.isShaft = true := by
  refine ⟨?_, fun _ _ _ reach => fresh_of_resumed reach, ?_, fun _ _ h => Arrow.exists_headed h⟩
  · intro b relation child target i j words words' rest rest' ending ending' free hi hj h h' fresh
      fresh' same endings next
    obtain ⟨m, m', reach, reach', related, related', result⟩ :=
      h.interchangeable free hi hj h' fresh fresh' same endings next
    exact ⟨m, m', reach, reach', related.graph, related'.graph, related.ahead, related'.ahead,
      result⟩
  · intro arrow t u ht hu
    rw [ht, hu]
    exact ⟨Arrow.recognize_right arrow, Arrow.recognize_left arrow, Token.relation_mirror ht hu⟩

/-- Behind two declarations a keyword and an arrow to the left agree, though the
next relation begins with a name that is spelled like the recorded operand. An
arrow with a turn and its mirror image are realizations, and a circle is a head. -/
theorem relation_forms_agree_behind_declarations :
    (∃ (b m m' : Builder) (words words' rest : List Token) (mark : Token.EndMark),
      words.map Token.text = ["X", "extends", "Y"] ∧
      words'.map Token.text = ["Y", "<|-up.-", "X"] ∧
      rest.map Token.text = ["Y", "implements", "X"] ∧
      Reaches (b.facing (words ++ rest) (.ok mark)) m ∧
      Reaches (b.facing (words' ++ rest) (.ok mark)) m' ∧
      m.graph = b.graph.draw ⟨0, .inherits, 1⟩ ∧ m'.graph = b.graph.draw ⟨0, .inherits, 1⟩ ∧
      SameResult m.run.1 m'.run.1) ∧
    (∃ t u : Token, t.text = "-down..|>" ∧ u.text = "<|..down-" ∧
      t.relation .right = .ok .realizes ∧ u.relation .left = .ok .realizes) ∧
    ∃ arrow : Arrow.Headed, arrow.right = (".-o" : Text) := by
  refine ⟨?_, ?_, ?_⟩
  · let name (text : String) (column : Int) : Token := ⟨.name, text, ⟨2, column⟩⟩
    let entity (text : String) : Entity := ⟨text, .str "", .concrete, [], []⟩
    let b : Builder := { Builder.ofText [] with
      graph := (Graph.empty.declare (entity "X")).declare (entity "Y") }
    let words := [name "X" 1, ⟨.relate .inherits, "extends", ⟨2, 3⟩⟩, name "Y" 11]
    let words' := [name "Y" 1, ⟨.arrow .left, "<|-up.-", ⟨2, 3⟩⟩, name "X" 11]
    let rest := [name "Y" 13, ⟨.relate .realizes, "implements", ⟨2, 15⟩⟩, name "X" 26]
    let mark : Token.EndMark := ⟨[], ⟨2, 27⟩⟩
    have keyword : Wording .inherits "X" "Y" words :=
      .keyword ⟨rfl, by decide⟩ rfl ⟨rfl, by decide⟩
    have arrow : Wording .inherits "X" "Y" words' :=
      .left ⟨rfl, by decide⟩ rfl (by decide +kernel) ⟨rfl, by decide⟩
    obtain ⟨m, m', reach, reach', graph, graph', _, _, result⟩ :=
      relation_forms_agree.1 b .inherits "X" "Y" 0 1 words words' rest rest (.ok mark)
        (.ok mark) rfl (by decide +kernel) (by decide +kernel) keyword arrow
        ⟨by decide +kernel, nofun⟩ ⟨by decide +kernel, nofun⟩
        (List.forall₂_same.mpr fun _ _ => ⟨rfl, fun _ => rfl, fun _ _ => rfl⟩) rfl (by decide)
    exact ⟨b, m, m', words, words', rest, mark, rfl, rfl, rfl, reach, reach', graph, graph', result⟩
  · let stroke : Arrow.Stroke := ⟨("-" : Text), by decide, by decide⟩
    let turn : Arrow.Turn := ⟨"down", by decide, ⟨(".." : Text), by decide, by decide⟩⟩
    let t : Token := ⟨.arrow .right, "-down..|>", ⟨1, 3⟩⟩
    let u : Token := ⟨.arrow .left, "<|..down-", ⟨2, 3⟩⟩
    have known : t.relation .right = .ok .realizes := by decide +kernel
    obtain ⟨_, _, same⟩ :=
      relation_forms_agree.2.2.1 ⟨⟨stroke, some turn⟩, .triangle⟩ t u rfl rfl
    rcases same with ⟨relation, h, h'⟩ | ⟨family, h, _⟩
    · cases h.symm.trans known
      exact ⟨t, u, rfl, rfl, h, h'⟩
    · cases h.symm.trans known
  · refine (relation_forms_agree.2.2.2 ".-o" " B" (by decide +kernel)).resolve_right ?_
    decide

end ClassGraph
