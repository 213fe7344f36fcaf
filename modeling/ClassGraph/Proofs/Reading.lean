import ClassGraph.Proofs.Diagram.Growth
import ClassGraph.Proofs.Scope
import ClassGraph.Proofs.Stream

/-! # A reader knows what the tokens behind it say

The state of building after the first `k` tokens of a diagram is compared with
what these tokens say. `Follows` is the part that holds after every token: the
graph, the open frames, and that no token passed by in vain. `Reading` holds
after every statement. It adds what the next statement needs to know about the
last two tokens: they are no half of a statement, and a name behind a relation
keyword is the recorded operand.
-/

namespace ClassGraph

/-- A statement can end with such a token. -/
def TokenKind.endsStatement : TokenKind → Bool
  | start | name | openBrace | closeBrace => true
  | _ => false

/-- A token that declares or relates something does so. -/
def Diagram.SaysAt (d : Diagram) (k : Nat) : Prop :=
  ∀ t, d[k]? = some t → (t.kind.isClassLike = true → ∃ e, d.declarationAt k = some e) ∧
    (t.kind.isRelation = true → ∃ e, d.edgeAt k = some e)

theorem Diagram.SaysAt.of_silent {d : Diagram} {k : Nat} {t : Token} (ht : d[k]? = some t)
    (hd : t.kind.isClassLike = false) (hr : t.kind.isRelation = false) : d.SaysAt k := by
  intro u hu
  cases ht.symm.trans hu
  constructor
  · intro h; rw [hd] at h; cases h
  · intro h; rw [hr] at h; cases h

namespace Builder

/-- The state after the first `k` tokens. -/
structure Follows (d : Diagram) (k : Nat) (b : Builder) : Prop where
  le : k ≤ d.length
  ahead : b.feed.ahead = d.drop k
  latest : b.feed.latest = d.tokenBefore k
  graph : b.graph = d.graphBefore k
  encloses : b.Encloses (d.openFrames k)
  heard : ∀ j < k, d.SaysAt j

namespace Follows

variable {d : Diagram} {k : Nat} {b : Builder}

theorem next (h : Follows d k b) : b.next? = d[k]? := by
  unfold next?
  rw [h.ahead, List.head?_drop]

theorem pass_next (h : Follows d k b) (t : Token) : (b.pass t).next? = d[k + 1]? := by
  unfold next? pass
  simp only [h.ahead, List.tail_drop, List.head?_drop]

theorem pass_pass_next (h : Follows d k b) (t u : Token) :
    ((b.pass t).pass u).next? = d[k + 2]? := by
  unfold next? pass
  simp only [h.ahead, List.tail_drop, List.head?_drop]

/-- Only the tokens, the graph and the scopes count. -/
theorem transfer {b' : Builder} (h : Follows d k b) (feed : b'.feed = b.feed)
    (graph : b'.graph = b.graph) (packages : b'.packages = b.packages)
    (depth : b'.depth = b.depth) : Follows d k b' where
  le := h.le
  ahead := by rw [feed]; exact h.ahead
  latest := by rw [feed]; exact h.latest
  graph := by rw [graph]; exact h.graph
  encloses := ⟨by rw [packages]; exact h.encloses.packages, by rw [depth]; exact h.encloses.depth⟩
  heard := h.heard

/-- One token on: the graph and the frames have to be shown, the rest follows. -/
theorem advance {b' : Builder} {t : Token} (h : Follows d k b) (ht : d[k]? = some t)
    (feed : b'.feed = (b.pass t).feed) (graph : b'.graph = d.graphBefore (k + 1))
    (encloses : b'.Encloses (d.openFrames (k + 1))) (heard : d.SaysAt k) :
    Follows d (k + 1) b' where
  le := (List.getElem?_eq_some_iff.mp ht).1
  ahead := by
    rw [feed]
    show b.feed.ahead.tail = _
    rw [h.ahead, List.tail_drop]
  latest := by rw [feed]; exact ht.symm
  graph := graph
  encloses := encloses
  heard := by
    intro j hj
    rcases Nat.lt_succ_iff_lt_or_eq.mp hj with hj | rfl
    · exact h.heard j hj
    · exact heard

/-- A token that neither declares nor relates leaves the graph alone. -/
theorem quiet {b' : Builder} {t : Token} (h : Follows d k b) (ht : d[k]? = some t)
    (declares : t.kind.isClassLike = false) (relates : t.kind.isRelation = false)
    (feed : b'.feed = (b.pass t).feed) (graph : b'.graph = b.graph)
    (encloses : b'.Encloses (d.openFrames (k + 1))) : Follows d (k + 1) b' := by
  refine h.advance ht feed ?_ encloses (.of_silent ht declares relates)
  rw [Diagram.graphBefore_succ ht declares relates, graph]
  exact h.graph

/-- What is no brace either changes nothing at all. -/
theorem silent {t : Token} (h : Follows d k b) (ht : d[k]? = some t)
    (hk : t.kind = .start ∨ t.kind = .name ∨ t.kind = .package) :
    Follows d (k + 1) (b.pass t) := by
  have framed : d.openFrames (k + 1) = d.openFrames k := by
    apply Diagram.openFrames_succ ht <;> rcases hk with hk | hk | hk <;> rw [hk] <;> decide
  refine h.quiet ht ?_ ?_ rfl rfl (framed ▸ h.encloses.pass t)
  · rcases hk with hk | hk | hk <;> rw [hk] <;> rfl
  · rcases hk with hk | hk | hk <;> rw [hk] <;> rfl

theorem openBrace {t : Token} (h : Follows d k b) (ht : d[k]? = some t)
    (hk : t.kind = .openBrace) (frame : d.frameAt k = .plain) :
    Follows d (k + 1) (b.pass t).openBrace := by
  refine h.quiet ht (by rw [hk]; rfl) (by rw [hk]; rfl) rfl rfl ?_
  rw [Diagram.openFrames_succ_of_openBrace ht hk, frame]
  exact (h.encloses.pass t).openBrace

theorem enter {t : Token} {name : Text} (h : Follows d k b) (ht : d[k]? = some t)
    (hk : t.kind = .openBrace) (frame : d.frameAt k = .package name) :
    Follows d (k + 1) ((b.pass t).enter name) := by
  refine h.quiet ht (by rw [hk]; rfl) (by rw [hk]; rfl) rfl rfl ?_
  rw [Diagram.openFrames_succ_of_openBrace ht hk, frame]
  exact (h.encloses.pass t).enter name

theorem closeBrace {t : Token} (h : Follows d k b) (ht : d[k]? = some t)
    (hk : t.kind = .closeBrace) : Follows d (k + 1) (b.pass t).closeBrace := by
  refine h.quiet ht (by rw [hk]; rfl) (by rw [hk]; rfl) (feed_closeBrace _) ?_ ?_
  · rw [closeBrace_eq]; rfl
  · rw [Diagram.openFrames_succ_of_closeBrace ht hk]
    exact (h.encloses.pass t).closeBrace

/-- A declaration is registered with its keyword; the name behind it is silent. -/
theorem declare {t : Token} {e : Declaration} (h : Follows d k b) (ht : d[k]? = some t)
    (he : d.declarationAt k = some e) :
    Follows d (k + 1) { b.pass t with
      graph := b.graph.declare ⟨e.name, .str e.package, e.kind, [], []⟩ } := by
  obtain ⟨keyword, _, hd, hk, _⟩ := Diagram.declarationAt_eq_some_iff.mp he
  cases ht.symm.trans hd
  refine h.advance ht rfl ?_ ?_ ?_
  · rw [Diagram.graphBefore_succ_of_declaration he, ← h.graph]
  · rw [Diagram.openFrames_succ ht (by rw [hk]; nofun) (by rw [hk]; nofun)]
    exact ⟨h.encloses.packages, h.encloses.depth⟩
  · intro u hu
    cases ht.symm.trans hu
    refine ⟨fun _ => ⟨e, he⟩, ?_⟩
    intro hr; rw [hk] at hr; cases hr

/-- An edge is drawn with its relation token; the name behind it is silent. -/
theorem draw {t : Token} {e : Edge} (h : Follows d k b) (ht : d[k]? = some t)
    (he : d.edgeAt k = some e) :
    Follows d (k + 1) { b.pass t with graph := b.graph.draw e } := by
  obtain ⟨word, hw, hr⟩ := Diagram.exists_relation_of_edgeAt he
  cases ht.symm.trans hw
  refine h.advance ht rfl ?_ ?_ ?_
  · rw [Diagram.graphBefore_succ_of_edge he, ← h.graph]; rfl
  · rw [Diagram.openFrames_succ ht (by intro hk; rw [hk] at hr; cases hr)
      (by intro hk; rw [hk] at hr; cases hr)]
    exact ⟨h.encloses.packages, h.encloses.depth⟩
  · intro u hu
    cases ht.symm.trans hu
    refine ⟨?_, fun _ => ⟨e, he⟩⟩
    intro hc; rw [TokenKind.isClassLike_of_isRelation hr] at hc; cases hc

end Follows

/-- The state after the first `k` tokens, where a statement ends with the last of
them. -/
structure Reading (d : Diagram) (k : Nat) (b : Builder) : Prop extends Follows d k b where
  rests : ∀ t, d.tokenBefore k = some t → t.kind.endsStatement = true
  behindWord : ∀ j word name, k = j + 2 → d[j]? = some word → d.nameAt (j + 1) = some name →
    word.kind ≠ .package ∧
      ∀ relation, word.kind = .relate relation → ∃ subject, b.chain = some (name, subject)
  chained : ∀ operand subject, b.chain = some (operand, subject) →
    ∃ j, d.isOperandAt (j + 1) = true ∧ d[j + 1]? = some operand ∧ d.subjectAt j = some subject

namespace Reading

variable {d : Diagram} {k m : Nat} {b b' : Builder}

/-! ## What the reader finds -/

theorem find? (h : Reading d k b) (name : Text) : b.graph.find? name = d.entityNamed k name := by
  rw [h.graph, Diagram.find?_graphBefore]

theorem ownSubject (h : Reading d k b) : b.ownSubject b.feed.latest = d.ownSubjectAt k := by
  have last : b.graph.last? = d.lastDeclared k := by rw [h.graph, Diagram.last?_graphBefore]
  rw [h.latest]
  unfold Diagram.ownSubjectAt
  cases k with
  | zero => exact last
  | succ j =>
    change b.ownSubject d[j]? = _
    cases ht : d[j]? with
    | none =>
      rw [show d.nameBefore (j + 1) = none by simp [Diagram.nameBefore, Diagram.nameAt, ht]]
      exact last
    | some t =>
      unfold Builder.ownSubject
      by_cases hk : t.kind = .name
      · have hn : d.nameBefore (j + 1) = some t := Diagram.nameAt_eq_some_iff.mpr ⟨ht, hk⟩
        rw [hn]
        simp only [hk, if_true, h.find?]
      · rw [show d.nameBefore (j + 1) = none by simp [Diagram.nameBefore, Diagram.nameAt, ht, hk]]
        simp only [hk, if_false, last]

/-- The recorded operand is the token in front of a keyword exactly where the
keyword continues another relation. No token occurs twice, so that equal tokens
stand at the same place. -/
theorem subject (h : Reading d k b) (hd : d.Nodup) :
    b.subjectBehind b.feed.latest = d.subjectAt k := by
  -- apart from the recorded operand, the recorded chain does not count
  have own : (∀ operand subject, b.chain = some (operand, subject) →
      b.feed.latest ≠ some operand) → b.subjectBehind b.feed.latest = d.ownSubjectAt k := by
    intro apart
    rw [← h.ownSubject]
    unfold subjectBehind
    cases hl : b.feed.latest with
    | none => rfl
    | some name =>
      cases hc : b.chain with
      | none => rfl
      | some chain =>
        have apart := apart chain.1 chain.2 hc
        rw [hl] at apart
        exact if_neg fun he => apart (congrArg some he)
  match k, h with
  | 0, h =>
    refine own fun operand subject _ hl => ?_
    rw [h.latest] at hl; cases hl
  | 1, h =>
    refine own fun operand subject hc hl => ?_
    obtain ⟨j, _, hj, _⟩ := h.chained operand subject hc
    have hl : d[0]? = some operand := h.latest.symm.trans hl
    have := Diagram.number_unique hd hl hj
    omega
  | k + 2, h =>
    have hl : b.feed.latest = d[k + 1]? := h.latest
    rw [Diagram.subjectAt]
    by_cases ho : d.isOperandAt (k + 1) = true
    · rw [if_pos ho]
      obtain ⟨word, relation, name, hw, hk, hn⟩ := Diagram.isOperandAt_succ_iff.mp ho
      obtain ⟨subject, hc⟩ := (h.behindWord k word name rfl hw hn).2 relation hk
      have hn := (Diagram.nameAt_eq_some_iff.mp hn).1
      obtain ⟨j, _, hj, hs⟩ := h.chained name subject hc
      obtain rfl : k = j := Nat.succ.inj (Diagram.number_unique hd hn hj)
      rw [hl, hn, hs]
      unfold subjectBehind
      simp only [hc, if_true]
    · rw [if_neg ho]
      refine own fun operand subject hc hl' => ?_
      obtain ⟨j, hj, hop, _⟩ := h.chained operand subject hc
      have hn : d[k + 1]? = some operand := hl.symm.trans hl'
      obtain rfl : k = j := Nat.succ.inj (Diagram.number_unique hd hn hop)
      exact ho hj

/-- A brace between statements opens no package. -/
theorem frameAt (h : Reading d k b) : d.frameAt k = .plain := by
  match k, h with
  | 0, _ => rfl
  | 1, _ => rfl
  | k + 2, h =>
    exact Diagram.frameAt_eq_plain fun word name hw hn => (h.behindWord k word name rfl hw hn).1

/-! ## One rule after the other -/

/-- A statement that ends with a token other than a name. -/
theorem of_token {t : Token} (h : Reading d m b) (f : Follows d (k + 1) b') (ht : d[k]? = some t)
    (ends : t.kind.endsStatement = true) (hn : t.kind ≠ .name) (chain : b'.chain = b.chain) :
    Reading d (k + 1) b' where
  toFollows := f
  rests := by
    intro u hu
    cases ht.symm.trans hu
    exact ends
  behindWord := by
    intro j word name hj _ hname
    obtain rfl : k = j + 1 := Nat.succ.inj hj
    obtain ⟨hu, hk⟩ := Diagram.nameAt_eq_some_iff.mp hname
    cases ht.symm.trans hu
    exact absurd hk hn
  chained := by rw [chain]; exact h.chained

/-- A statement that ends with a name behind a word. -/
theorem of_word {word name : Token} (f : Follows d (k + 2) b') (hw : d[k]? = some word)
    (hn : d.nameAt (k + 1) = some name) (hp : word.kind ≠ .package)
    (hr : ∀ relation, word.kind = .relate relation → ∃ subject, b'.chain = some (name, subject))
    (chained : ∀ operand subject, b'.chain = some (operand, subject) →
      ∃ j, d.isOperandAt (j + 1) = true ∧ d[j + 1]? = some operand ∧ d.subjectAt j = some subject) :
    Reading d (k + 2) b' where
  toFollows := f
  rests := by
    intro u hu
    obtain ⟨ht, hk⟩ := Diagram.nameAt_eq_some_iff.mp hn
    cases ht.symm.trans hu
    rw [hk]; rfl
  behindWord := by
    intro j word' name' hj hw' hn'
    obtain rfl : k = j := Nat.succ.inj (Nat.succ.inj hj)
    cases hw.symm.trans hw'
    cases hn.symm.trans hn'
    exact ⟨hp, hr⟩
  chained := chained

theorem start {t : Token} (h : Reading d k b) (ht : d[k]? = some t) (hk : t.kind = .start) :
    Reading d (k + 1) (b.pass t) :=
  h.of_token (h.silent ht (.inl hk)) ht (by rw [hk]; rfl) (by rw [hk]; nofun) rfl

/-- A name that stands free follows the end of another statement. -/
theorem name {t : Token} (h : Reading d k b) (ht : d[k]? = some t) (hk : t.kind = .name) :
    Reading d (k + 1) { b.pass t with pending := some t } where
  toFollows := (h.silent ht (.inr (.inl hk))).transfer rfl rfl rfl rfl
  rests := by
    intro u hu
    cases ht.symm.trans hu
    rw [hk]; rfl
  behindWord := by
    intro j word _ hj hw _
    obtain rfl : k = j + 1 := Nat.succ.inj hj
    have rests := h.rests word hw
    refine ⟨?_, ?_⟩
    · intro hp; rw [hp] at rests; cases rests
    · intro relation hr; rw [hr] at rests; cases rests
  chained := h.chained

theorem openBrace {t : Token} (h : Reading d k b) (ht : d[k]? = some t)
    (hk : t.kind = .openBrace) : Reading d (k + 1) (b.pass t).openBrace :=
  h.of_token (h.toFollows.openBrace ht hk h.frameAt) ht (by rw [hk]; rfl) (by rw [hk]; nofun) rfl

theorem closeBrace {t : Token} (h : Reading d k b) (ht : d[k]? = some t)
    (hk : t.kind = .closeBrace) : Reading d (k + 1) (b.pass t).closeBrace :=
  h.of_token (h.toFollows.closeBrace ht hk) ht (by rw [hk]; rfl) (by rw [hk]; nofun)
    (by rw [closeBrace_eq]; rfl)

theorem declaration {keyword name : Token} {kind : EntityKind} (h : Reading d k b)
    (ht : d[k]? = some keyword) (hk : keyword.kind = .declare kind)
    (hn : d.nameAt (k + 1) = some name) :
    Reading d (k + 2) { (b.pass keyword).pass name with
      graph := b.graph.declare ⟨name.value, .str b.currentPackage, kind, [], []⟩ } := by
  obtain ⟨hname, hnk⟩ := Diagram.nameAt_eq_some_iff.mp hn
  have he : d.declarationAt k = some ⟨kind, name.value, b.currentPackage⟩ :=
    Diagram.declarationAt_eq_some_iff.mpr
      ⟨keyword, name, ht, hk, hname, rfl, h.encloses.currentPackage⟩
  have f := (h.toFollows.declare ht he).silent hname (.inr (.inl hnk))
  refine of_word (f.transfer rfl rfl rfl rfl) ht hn (by rw [hk]; nofun) ?_ h.chained
  intro relation hr; rw [hk] at hr; cases hr

theorem package {keyword name brace : Token} (h : Reading d k b) (ht : d[k]? = some keyword)
    (hk : keyword.kind = .package) (hn : d.nameAt (k + 1) = some name)
    (hb : d[k + 2]? = some brace) (hbk : brace.kind = .openBrace) :
    Reading d (k + 3) ((((b.pass keyword).pass name).pass brace).enter name.value) := by
  obtain ⟨hname, hnk⟩ := Diagram.nameAt_eq_some_iff.mp hn
  have f := (h.silent ht (.inr (.inr hk))).silent hname (.inr (.inl hnk))
  have f := f.enter hb hbk (Diagram.frameAt_eq_package ht hk hn)
  exact h.of_token f hb (by rw [hbk]; rfl) (by rw [hbk]; nofun) rfl

theorem keyword {keyword operand : Token} {relation : Relation} {child target : Nat}
    (h : Reading d k b) (ht : d[k]? = some keyword) (hk : keyword.kind = .relate relation)
    (hs : d.subjectAt k = some child) (hn : d.nameAt (k + 1) = some operand)
    (hr : d.entityNamed k operand.value = some target) :
    Reading d (k + 2) { (b.pass keyword).pass operand with
      pending := none, graph := b.graph.draw ⟨child, relation, target⟩,
      chain := some (operand, child) } := by
  obtain ⟨hname, hnk⟩ := Diagram.nameAt_eq_some_iff.mp hn
  have he := (Diagram.edgeAt_keyword ht hk).mpr ⟨child, operand, target, hs, hn, hr, rfl⟩
  have f := (h.toFollows.draw ht he).silent hname (.inr (.inl hnk))
  refine of_word (f.transfer rfl rfl rfl rfl) ht hn (by rw [hk]; nofun) ?_ ?_
  · intro _ _; exact ⟨child, rfl⟩
  · intro o s hc
    cases hc
    exact ⟨k, Diagram.isOperandAt_succ_iff.mpr ⟨keyword, relation, operand, ht, hk, hn⟩, hname, hs⟩

theorem arrow {arrow right : Token} {side : Side} {relation : Relation} {before after : Nat}
    (h : Reading d k b) (ht : d[k]? = some arrow) (hk : arrow.kind = .arrow side)
    (hn : d.nameAt (k + 1) = some right)
    (he : d.edgeAt k = some (.drawn side relation before after)) :
    Reading d (k + 2) { (b.pass arrow).pass right with
      pending := none, graph := b.graph.draw (.drawn side relation before after) } := by
  obtain ⟨hname, hnk⟩ := Diagram.nameAt_eq_some_iff.mp hn
  have f := (h.toFollows.draw ht he).silent hname (.inr (.inl hnk))
  refine of_word (f.transfer rfl rfl rfl rfl) ht hn (by rw [hk]; nofun) ?_ h.chained
  intro r hr; rw [hk] at hr; cases hr

/-! ## A whole run -/

theorem ofText (source : Text) : Reading (Token.stream source).1 0 (.ofText source) where
  le := Nat.zero_le _
  ahead := rfl
  latest := rfl
  graph := rfl
  encloses := ⟨rfl, rfl⟩
  heard := by intro j hj; omega
  rests := by intro t ht; cases ht
  behindWord := by intro j _ _ hj; omega
  chained := by intro _ _ hc; cases hc

/-- Every statement leads from one such state to another. -/
theorem reads (h : Reading d k b) (hd : d.Nodup) (hr : Reads b b') : ∃ m, Reading d m b' := by
  have named {j : Nat} {t : Token} (ht : d[j]? = some t) (hk : t.kind = .name) :
      d.nameAt j = some t := Diagram.nameAt_eq_some_iff.mpr ⟨ht, hk⟩
  cases hr with
  | start _ next kind =>
    rw [h.next] at next
    exact ⟨_, h.start next kind⟩
  | name _ next kind =>
    rw [h.next] at next
    exact ⟨_, h.name next kind⟩
  | openBrace _ next kind =>
    rw [h.next] at next
    exact ⟨_, h.openBrace next kind⟩
  | closeBrace _ next kind =>
    rw [h.next] at next
    exact ⟨_, h.closeBrace next kind⟩
  | declaration _ next kind_eq name_next name_kind =>
    rw [h.next] at next
    rw [h.pass_next] at name_next
    exact ⟨_, h.declaration next kind_eq (named name_next name_kind)⟩
  | package _ next kind name_next name_kind brace_next brace_kind =>
    rw [h.next] at next
    rw [h.pass_next] at name_next
    rw [h.pass_pass_next] at brace_next
    exact ⟨_, h.package next kind (named name_next name_kind) brace_next brace_kind⟩
  | keyword next kind subject operand_next operand_kind resolved =>
    rw [h.next] at next
    rw [h.subject hd] at subject
    rw [h.pass_next] at operand_next
    rw [h.find?] at resolved
    exact ⟨_, h.keyword next kind subject (named operand_next operand_kind) resolved⟩
  | arrow next kind left_eq left_kind family left_resolved right_next right_kind right_resolved =>
    rw [h.next] at next
    rw [h.latest] at left_eq
    rw [h.find?] at left_resolved right_resolved
    rw [h.pass_next] at right_next
    have right := named right_next right_kind
    have left : d.nameBefore k = some _ := Diagram.nameBefore_eq_some_iff.mpr ⟨left_eq, left_kind⟩
    exact ⟨_, h.arrow next kind right ((Diagram.edgeAt_arrow next kind).mpr
      ⟨_, _, _, _, _, family, left, left_resolved, right, right_resolved, rfl⟩)⟩

theorem of_reaches {source : Text} {m : Builder} (h : Reaches (.ofText source) m) :
    ∃ k, Reading (Token.stream source).1 k m ∧ m.feed.ending = (Token.stream source).2 := by
  obtain ⟨run, ending⟩ := h.reads fun t ht => Token.kind_ne_finish_of_mem_stream ht
  obtain ⟨k, hk⟩ : ∃ k, Reading (Token.stream source).1 k m := by
    clear ending h
    induction run with
    | refl => exact ⟨0, ofText source⟩
    | tail _ last ih =>
      obtain ⟨k, hk⟩ := ih
      exact hk.reads (Token.nodup_stream source) last
  exact ⟨k, hk, ending⟩

theorem length_eq (h : Reading d k b) (hend : b.feed.ahead = []) : k = d.length := by
  have := h.le
  have := List.drop_eq_nil_iff.mp (h.ahead.symm.trans hend)
  omega

end Reading

/-- At the end all tokens of the text are read. -/
theorem reading_of_atEnd {source : Text} {b : Builder} {mark : Token.EndMark}
    (run : Reaches (.ofText source) b) (hend : b.AtEnd mark) :
    ∃ d : Diagram, Token.stream source = (d, .ok mark) ∧ Reading d d.length b := by
  obtain ⟨k, hk, ending⟩ := Reading.of_reaches run
  obtain rfl := hk.length_eq hend.exhausted
  exact ⟨_, Prod.ext rfl (ending.symm.trans hend.ending), hk⟩

theorem Reading.saysAt {d : Diagram} {b : Builder} (h : Reading d d.length b) (k : Nat) :
    d.SaysAt k := by
  by_cases hk : k < d.length
  · exact h.heard k hk
  · intro t ht
    exact absurd (List.getElem?_eq_some_iff.mp ht).1 hk

/-- The graph of an accepted text is what all its tokens say. Every token that
declares or relates something does so, and no package is left open. -/
theorem parsed {source : Text} {g : Graph} (h : parse source = .ok g) :
    ∃ (d : Diagram) (mark : _), Token.stream source = (d, .ok mark) ∧
      g = d.graphBefore d.length ∧ (∀ k, d.SaysAt k) ∧ Frame.AllPlain (d.openFrames d.length) := by
  obtain ⟨m, mark, run, hend, packages, graph⟩ := reaches_of_run h
  obtain ⟨d, hs, hd⟩ := reading_of_atEnd run hend
  refine ⟨d, mark, hs, ?_, hd.saysAt, hd.encloses.packages_eq_nil_iff.mp packages⟩
  rw [← graph, hd.graph]

end Builder

end ClassGraph
