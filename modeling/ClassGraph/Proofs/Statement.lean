import ClassGraph.Proofs.Diagram
import Mathlib.Logic.Relation

/-! # One statement after the other

What each step of building does where it succeeds: which tokens it takes and
how the state behind it differs. `Reads` lists the statements with their
effects, one rule for each, and `reads_iff_proceeds` says that these are the
steps that the loop takes. Whoever follows a run goes through the rules and
need not look at the code of a step again.
-/

namespace ClassGraph

namespace Build

variable {α β : Type}

/-- A step has a result and leaves a state; it does not fail. -/
def Returns (m : Build α) (b : Builder) (a : α) (b' : Builder) : Prop := m.run b = (.ok a, b')

theorem returns_pure_iff {a r : α} {b b' : Builder} :
    Returns (pure a) b r b' ↔ r = a ∧ b' = b := by
  unfold Returns
  rw [run_pure, Prod.mk.injEq, Except.ok.injEq]
  exact and_congr eq_comm eq_comm

theorem not_returns_fail {e : ParseError} {r : α} {b b' : Builder} :
    ¬ Returns (fail e) b r b' := by
  unfold Returns
  rw [run_fail]
  intro h; cases h

theorem returns_change_iff {f : Builder → Builder} {u : Unit} {b b' : Builder} :
    Returns (change f) b u b' ↔ b' = f b := by
  unfold Returns
  rw [run_change, Prod.mk.injEq]
  exact ⟨fun h => h.2.symm, fun h => ⟨rfl, h.symm⟩⟩

theorem returns_bind_iff {first : Build α} {second : α → Build β} {b b' : Builder} {r : β} :
    Returns (first >>= second) b r b' ↔ ∃ a m, Returns first b a m ∧ Returns (second a) m r b' := by
  unfold Returns
  rw [run_bind]
  constructor
  · intro h
    split at h
    · rename_i a m hm
      exact ⟨a, m, hm, h⟩
    · cases h
  · intro h
    obtain ⟨a, m, hm, h⟩ := h
    rw [hm]; exact h

theorem returns_state_bind_iff {f : Builder → Build β} {b b' : Builder} {r : β} :
    Returns (state >>= f) b r b' ↔ Returns (f b) b r b' := Iff.rfl

theorem returns_change_bind_iff {g : Builder → Builder} {f : Unit → Build β} {b b' : Builder}
    {r : β} : Returns (change g >>= f) b r b' ↔ Returns (f ()) (g b) r b' := Iff.rfl

end Build

/-- Adds an edge to a graph. -/
def Graph.draw (g : Graph) (e : Edge) : Graph := g.relate e.child e.relation e.target

namespace Builder

open Build

/-- The token that is taken next. -/
def next? (b : Builder) : Option Token := b.feed.ahead.head?

/-- The state behind a token. -/
def pass (b : Builder) (t : Token) : Builder :=
  { b with feed := { b.feed.note t with ahead := b.feed.ahead.tail } }

/-- The state behind the opening brace of a package. -/
def enter (b : Builder) (name : Text) : Builder :=
  { b with packages := ⟨b.innerPath name, b.depth⟩ :: b.packages, depth := b.depth + 1 }

/-- The subject of a keyword relation that continues no other one. -/
def ownSubject (b : Builder) : Option Token → Option Nat
  | some name => if name.kind = .name then b.graph.find? name.value else b.graph.last?
  | none => b.graph.last?

/-- The subject of a keyword relation behind a token. -/
def subjectBehind (b : Builder) : Option Token → Option Nat
  | some name =>
    match b.chain with
    | some (operand, subject) =>
      if name = operand then some subject else b.ownSubject (some name)
    | none => b.ownSubject (some name)
  | none => b.ownSubject none

/-! ## The parts of a statement -/

theorem returns_take_token_iff {b b' : Builder} {t : Token} :
    Returns take b (.token t) b' ↔ b.next? = some t ∧ b' = b.pass t := by
  simp only [Returns, take, Token.Feed.next, next?, pass]
  cases ha : b.feed.ahead with
  | nil => cases he : b.feed.ending <;> simp
  | cons s rest =>
    simp only [Prod.mk.injEq, Except.ok.injEq, Token.Feed.Taken.token.injEq, List.head?_cons,
      Option.some.injEq, List.tail_cons]
    constructor
    · intro h
      obtain ⟨rfl, rfl⟩ := h
      exact ⟨rfl, rfl⟩
    · intro h
      obtain ⟨rfl, rfl⟩ := h
      exact ⟨rfl, rfl⟩

theorem returns_take_finish_iff {b b' : Builder} {mark : Token.EndMark} :
    Returns take b (.finish mark) b' ↔ b.feed.ahead = [] ∧ b.feed.ending = .ok mark ∧
      b' = { b with feed := b.feed.note mark.token } := by
  simp only [Returns, take, Token.Feed.next]
  cases ha : b.feed.ahead with
  | nil =>
    cases he : b.feed.ending with
    | error e => simp
    | ok m =>
      simp only [Prod.mk.injEq, Except.ok.injEq, Token.Feed.Taken.finish.injEq, true_and]
      constructor
      · intro h
        obtain ⟨rfl, rfl⟩ := h
        exact ⟨rfl, rfl⟩
      · intro h
        obtain ⟨rfl, rfl⟩ := h
        exact ⟨rfl, rfl⟩
  | cons s rest => simp

theorem returns_settle_bind_iff {α : Type} {f : Unit → Build α} {b b' : Builder} {r : α} :
    Returns (settle >>= f) b r b' ↔ Returns (f ()) { b with pending := none } r b' := Iff.rfl

/-- A token of the right kind that is taken is no end mark. -/
theorem returns_takeKind_iff {α : Type} {kind : TokenKind} (hk : kind ≠ .finish)
    (found : Token → Build α) (error : Token → ParseError) {b b' : Builder} {a : α} :
    Returns (do
      let taken ← take
      if taken.asToken.kind = kind then found taken.asToken
      else fail (error taken.asToken)) b a b' ↔
    ∃ t, b.next? = some t ∧ t.kind = kind ∧ Returns (found t) (b.pass t) a b' := by
  rw [returns_bind_iff]
  constructor
  · intro h
    obtain ⟨taken, m, ht, h⟩ := h
    split at h
    · rename_i he
      cases taken with
      | token t =>
        obtain ⟨hn, rfl⟩ := returns_take_token_iff.mp ht
        exact ⟨t, hn, he, h⟩
      | finish mark => exact absurd he.symm hk
    · exact (not_returns_fail h).elim
  · intro h
    obtain ⟨t, hn, he, h⟩ := h
    refine ⟨.token t, b.pass t, returns_take_token_iff.mpr ⟨hn, rfl⟩, ?_⟩
    rw [if_pos (show (Token.Feed.Taken.token t).asToken.kind = kind from he)]
    exact h

theorem returns_expectName_iff {keyword n : Token} {b b' : Builder} :
    Returns (expectName keyword) b n b' ↔
      b.next? = some n ∧ n.kind = .name ∧ b' = b.pass n := by
  unfold expectName
  refine (returns_takeKind_iff (by decide) pure (.missingName keyword)).trans ?_
  simp only [returns_pure_iff]
  constructor
  · intro h
    obtain ⟨t, hn, hk, rfl, rfl⟩ := h
    exact ⟨hn, hk, rfl⟩
  · intro h
    obtain ⟨hn, hk, rfl⟩ := h
    exact ⟨n, hn, hk, rfl, rfl⟩

theorem returns_resolve_iff {name : Token} {i : Nat} {b b' : Builder} :
    Returns (resolve name) b i b' ↔ b.graph.find? name.value = some i ∧ b' = b := by
  unfold resolve
  rw [returns_state_bind_iff]
  cases b.graph.find? name.value with
  | some j => simp only [returns_pure_iff, Option.some.injEq, eq_comm]
  | none => simp [not_returns_fail]

theorem returns_declareEntity_iff {keyword : Token} {kind : EntityKind} {u : Unit}
    {b b' : Builder} :
    Returns (declareEntity keyword kind) b u b' ↔ ∃ name, b.next? = some name ∧
      name.kind = .name ∧ b' = { b.pass name with
        graph := b.graph.declare ⟨name.value, .str b.currentPackage, kind, [], []⟩ } := by
  unfold declareEntity
  simp only [returns_bind_iff, returns_expectName_iff, returns_change_iff]
  constructor
  · intro h
    obtain ⟨name, _, ⟨hn, hk, rfl⟩, rfl⟩ := h
    exact ⟨name, hn, hk, rfl⟩
  · intro h
    obtain ⟨name, hn, hk, rfl⟩ := h
    exact ⟨name, _, ⟨hn, hk, rfl⟩, rfl⟩

theorem returns_openPackage_iff {keyword : Token} {u : Unit} {b b' : Builder} :
    Returns (openPackage keyword) b u b' ↔ ∃ name brace, b.next? = some name ∧
      name.kind = .name ∧ (b.pass name).next? = some brace ∧ brace.kind = .openBrace ∧
      b' = ((b.pass name).pass brace).enter name.value := by
  have brace_iff (name : Token) : ∀ m : Builder, _ ↔ ∃ brace, m.next? = some brace ∧
      brace.kind = .openBrace ∧ Returns _ (m.pass brace) u b' := fun m =>
    returns_takeKind_iff (by decide) (fun _ => change fun b => b.enter name.value)
      (.missingBrace name.value)
  unfold openPackage
  rw [returns_bind_iff]
  simp only [returns_expectName_iff]
  constructor
  · intro h
    obtain ⟨name, _, ⟨hn, hk, rfl⟩, h⟩ := h
    obtain ⟨brace, hb, hbk, h⟩ := (brace_iff name _).mp h
    exact ⟨name, brace, hn, hk, hb, hbk, returns_change_iff.mp h⟩
  · intro h
    obtain ⟨name, brace, hn, hk, hb, hbk, h⟩ := h
    refine ⟨name, _, ⟨hn, hk, rfl⟩, (brace_iff name _).mpr ⟨brace, hb, hbk, ?_⟩⟩
    exact returns_change_iff.mpr h

theorem returns_lastDeclared_iff {keyword : Token} {i : Nat} {b b' m : Builder} :
    Returns (keywordSubject.lastDeclared keyword m) b i b' ↔ m.graph.last? = some i ∧ b' = b := by
  unfold keywordSubject.lastDeclared
  cases m.graph.last? with
  | some j => simp only [returns_pure_iff, Option.some.injEq, eq_comm]
  | none => simp [not_returns_fail]

theorem returns_ownSubject_iff {keyword name : Token} {i : Nat} {b b' : Builder} :
    Returns (if name.kind = .name then resolve name else keywordSubject.lastDeclared keyword b)
      b i b' ↔ b.ownSubject (some name) = some i ∧ b' = b := by
  unfold ownSubject
  by_cases hk : name.kind = .name
  · simp only [if_pos hk, returns_resolve_iff]
  · simp only [if_neg hk, returns_lastDeclared_iff]

theorem returns_keywordSubject_iff {keyword : Token} {i : Nat} {b b' : Builder} :
    Returns (keywordSubject keyword) b i b' ↔
      b.subjectBehind b.feed.previous = some i ∧ b' = { b with pending := none } := by
  unfold keywordSubject settle subjectBehind
  rw [returns_change_bind_iff, returns_state_bind_iff]
  cases b.feed.previous with
  | none => exact returns_lastDeclared_iff
  | some name =>
    cases b.chain with
    | none => exact returns_ownSubject_iff
    | some chain =>
      obtain ⟨operand, subject⟩ := chain
      by_cases hn : name = operand
      · simp only [hn, if_true, returns_pure_iff, Option.some.injEq, eq_comm]
      · simp only [hn, if_false]
        exact returns_ownSubject_iff

theorem returns_keywordRelation_iff {keyword : Token} {relation : Relation} {u : Unit}
    {b b' : Builder} :
    Returns (keywordRelation keyword relation) b u b' ↔ ∃ child operand target,
      b.subjectBehind b.feed.previous = some child ∧
      b.next? = some operand ∧ operand.kind = .name ∧
      b.graph.find? operand.value = some target ∧
      b' = { b.pass operand with
        pending := none, graph := b.graph.draw ⟨child, relation, target⟩,
        chain := some (operand, child) } := by
  constructor
  · intro h
    obtain ⟨child, _, subject, h₁⟩ := returns_bind_iff.mp h
    obtain ⟨hs, rfl⟩ := returns_keywordSubject_iff.mp subject
    obtain ⟨operand, _, name, h₂⟩ := returns_bind_iff.mp h₁
    obtain ⟨hn, hk, rfl⟩ := returns_expectName_iff.mp name
    obtain ⟨target, _, resolved, h₃⟩ := returns_bind_iff.mp h₂
    obtain ⟨hr, rfl⟩ := returns_resolve_iff.mp resolved
    exact ⟨child, operand, target, hs, hn, hk, hr, returns_change_iff.mp h₃⟩
  · intro h
    obtain ⟨child, operand, target, hs, hn, hk, hr, rfl⟩ := h
    refine returns_bind_iff.mpr ⟨child, _, returns_keywordSubject_iff.mpr ⟨hs, rfl⟩, ?_⟩
    refine returns_bind_iff.mpr ⟨operand, _, returns_expectName_iff.mpr ⟨hn, hk, rfl⟩, ?_⟩
    refine returns_bind_iff.mpr ⟨target, _, returns_resolve_iff.mpr ⟨hr, rfl⟩, ?_⟩
    exact returns_change_iff.mpr rfl

theorem returns_leftOperand_iff {arrow left : Token} {b b' : Builder} :
    Returns (leftOperand arrow) b left b' ↔
      b.feed.previous = some left ∧ left.kind = .name ∧ b' = b := by
  unfold leftOperand
  rw [returns_state_bind_iff]
  cases b.feed.previous with
  | none => simp [not_returns_fail]
  | some name =>
    by_cases hk : name.kind = .name
    · simp only [hk, if_true, returns_pure_iff, Option.some.injEq]
      constructor
      · intro h
        obtain ⟨rfl, rfl⟩ := h
        exact ⟨rfl, hk, rfl⟩
      · intro h
        obtain ⟨rfl, _, rfl⟩ := h
        exact ⟨rfl, rfl⟩
    · simp only [hk, if_false, not_returns_fail, false_iff, Option.some.injEq]
      intro h
      obtain ⟨rfl, h, _⟩ := h
      exact hk h

theorem returns_arrowRelation_iff {arrow : Token} {side : Side} {relation : Relation}
    {b b' : Builder} :
    Returns (arrowRelation arrow side) b relation b' ↔
      (Arrow.family side arrow.text).relation? = some relation ∧ b' = b := by
  unfold arrowRelation Token.relation
  simp only
  cases (Arrow.family side arrow.text).relation? with
  | some r => simp only [returns_pure_iff, Option.some.injEq, eq_comm]
  | none => simp [not_returns_fail]

theorem returns_drawArrow_iff {arrow : Token} {side : Side} {u : Unit} {b b' : Builder} :
    Returns (drawArrow arrow side) b u b' ↔ ∃ left relation before right after,
      b.feed.previous = some left ∧ left.kind = .name ∧
      (Arrow.family side arrow.text).relation? = some relation ∧
      b.graph.find? left.value = some before ∧ b.next? = some right ∧ right.kind = .name ∧
      b.graph.find? right.value = some after ∧
      b' = { b.pass right with
        pending := none, graph := b.graph.draw (.drawn side relation before after) } := by
  constructor
  · intro h
    obtain ⟨left, _, operand, h₁⟩ := returns_bind_iff.mp h
    obtain ⟨hl, hlk, rfl⟩ := returns_leftOperand_iff.mp operand
    obtain ⟨relation, _, family, h₂⟩ := returns_bind_iff.mp h₁
    obtain ⟨hrel, rfl⟩ := returns_arrowRelation_iff.mp family
    have h₃ := returns_settle_bind_iff.mp h₂
    obtain ⟨before, _, resolved, h₄⟩ := returns_bind_iff.mp h₃
    obtain ⟨hb, rfl⟩ := returns_resolve_iff.mp resolved
    obtain ⟨right, _, name, h₅⟩ := returns_bind_iff.mp h₄
    obtain ⟨hr, hrk, rfl⟩ := returns_expectName_iff.mp name
    obtain ⟨after, _, resolved, h₆⟩ := returns_bind_iff.mp h₅
    obtain ⟨ha, rfl⟩ := returns_resolve_iff.mp resolved
    refine ⟨left, relation, before, right, after, hl, hlk, hrel, hb, hr, hrk, ha, ?_⟩
    cases side <;> exact returns_change_iff.mp h₆
  · intro h
    obtain ⟨left, relation, before, right, after, hl, hlk, hrel, hb, hr, hrk, ha, rfl⟩ := h
    refine returns_bind_iff.mpr ⟨left, _, returns_leftOperand_iff.mpr ⟨hl, hlk, rfl⟩, ?_⟩
    refine returns_bind_iff.mpr ⟨relation, _, returns_arrowRelation_iff.mpr ⟨hrel, rfl⟩, ?_⟩
    refine returns_settle_bind_iff.mpr ?_
    refine returns_bind_iff.mpr ⟨before, _, returns_resolve_iff.mpr ⟨hb, rfl⟩, ?_⟩
    refine returns_bind_iff.mpr ⟨right, _, returns_expectName_iff.mpr ⟨hr, hrk, rfl⟩, ?_⟩
    refine returns_bind_iff.mpr ⟨after, _, returns_resolve_iff.mpr ⟨ha, rfl⟩, ?_⟩
    cases side <;> exact returns_change_iff.mpr rfl

/-! ## Statements -/

/-- What one step of the loop takes and does. A name that waits has to be
followed by a relation; the other statements stand free. -/
inductive Reads : Builder → Builder → Prop
  | start {b : Builder} {t : Token} (free : b.pending = none) (next : b.next? = some t)
      (kind : t.kind = .start) : Reads b (b.pass t)
  | name {b : Builder} {t : Token} (free : b.pending = none) (next : b.next? = some t)
      (kind : t.kind = .name) : Reads b { b.pass t with pending := some t }
  | openBrace {b : Builder} {t : Token} (free : b.pending = none) (next : b.next? = some t)
      (kind : t.kind = .openBrace) : Reads b (b.pass t).openBrace
  | closeBrace {b : Builder} {t : Token} (free : b.pending = none) (next : b.next? = some t)
      (kind : t.kind = .closeBrace) : Reads b (b.pass t).closeBrace
  | declaration {b : Builder} {keyword name : Token} {kind : EntityKind}
      (free : b.pending = none) (next : b.next? = some keyword)
      (kind_eq : keyword.kind = .declare kind) (name_next : (b.pass keyword).next? = some name)
      (name_kind : name.kind = .name) :
      Reads b { (b.pass keyword).pass name with
        graph := b.graph.declare ⟨name.value, .str b.currentPackage, kind, [], []⟩ }
  | package {b : Builder} {keyword name brace : Token}
      (free : b.pending = none) (next : b.next? = some keyword) (kind : keyword.kind = .package)
      (name_next : (b.pass keyword).next? = some name) (name_kind : name.kind = .name)
      (brace_next : ((b.pass keyword).pass name).next? = some brace)
      (brace_kind : brace.kind = .openBrace) :
      Reads b ((((b.pass keyword).pass name).pass brace).enter name.value)
  | keyword {b : Builder} {keyword operand : Token} {relation : Relation} {child target : Nat}
      (next : b.next? = some keyword) (kind : keyword.kind = .relate relation)
      (subject : b.subjectBehind b.feed.latest = some child)
      (operand_next : (b.pass keyword).next? = some operand) (operand_kind : operand.kind = .name)
      (resolved : b.graph.find? operand.value = some target) :
      Reads b { (b.pass keyword).pass operand with
        pending := none, graph := b.graph.draw ⟨child, relation, target⟩,
        chain := some (operand, child) }
  | arrow {b : Builder} {left arrow right : Token} {side : Side} {relation : Relation}
      {before after : Nat}
      (next : b.next? = some arrow) (kind : arrow.kind = .arrow side)
      (left_eq : b.feed.latest = some left) (left_kind : left.kind = .name)
      (family : (Arrow.family side arrow.text).relation? = some relation)
      (left_resolved : b.graph.find? left.value = some before)
      (right_next : (b.pass arrow).next? = some right) (right_kind : right.kind = .name)
      (right_resolved : b.graph.find? right.value = some after) :
      Reads b { (b.pass arrow).pass right with
        pending := none, graph := b.graph.draw (.drawn side relation before after) }

/-- The loop goes on from one state to the next. -/
def Proceeds (b b' : Builder) : Prop := Returns step b false b'

/-- Behind a token the loop handles it and goes on, unless a name waits that
the token does not relate. -/
theorem returns_statement_iff {t : Token} {go : Bool} {b b' : Builder} :
    Returns (do
      match (← state).pending with
      | some name =>
        if t.kind.isRelation then
          handle t
          return false
        else fail (.danglingName name)
      | none =>
        handle t
        return false) b go b' ↔
    go = false ∧ (b.pending = none ∨ t.kind.isRelation) ∧ Returns (handle t) b () b' := by
  have handled : Returns (do handle t; return false) b go b' ↔
      go = false ∧ Returns (handle t) b () b' := by
    constructor
    · intro h
      obtain ⟨_, _, h, ended⟩ := returns_bind_iff.mp h
      obtain ⟨rfl, rfl⟩ := returns_pure_iff.mp ended
      exact ⟨rfl, h⟩
    · intro h
      obtain ⟨rfl, h⟩ := h
      exact returns_bind_iff.mpr ⟨(), _, h, returns_pure_iff.mpr ⟨rfl, rfl⟩⟩
  rw [returns_state_bind_iff]
  cases b.pending with
  | none => simp only [handled, true_or, true_and]
  | some name =>
    cases t.kind.isRelation with
    | true => simp only [if_true, handled, or_true, true_and]
    | false => simp [not_returns_fail]

theorem proceeds_iff {b b' : Builder} :
    Proceeds b b' ↔ ∃ t, b.next? = some t ∧ (b.pending = none ∨ t.kind.isRelation) ∧
      Returns (handle t) (b.pass t) () b' := by
  unfold Proceeds step
  constructor
  · intro h
    obtain ⟨taken, m, ht, rest⟩ := returns_bind_iff.mp h
    cases taken with
    | finish mark =>
      obtain ⟨_, _, _, ended⟩ := returns_bind_iff.mp rest
      cases (returns_pure_iff.mp ended).1
    | token t =>
      obtain ⟨hn, rfl⟩ := returns_take_token_iff.mp ht
      exact ⟨t, hn, (returns_statement_iff.mp rest).2⟩
  · intro h
    obtain ⟨t, hn, h⟩ := h
    exact returns_bind_iff.mpr
      ⟨.token t, _, returns_take_token_iff.mpr ⟨hn, rfl⟩, returns_statement_iff.mpr ⟨rfl, h⟩⟩

theorem Reads.proceeds {b b' : Builder} (h : Reads b b') : Proceeds b b' := by
  rw [proceeds_iff]
  cases h with
  | @start t free next kind =>
    refine ⟨t, next, .inl free, ?_⟩
    unfold handle; rw [kind]; exact returns_pure_iff.mpr ⟨rfl, rfl⟩
  | @name t free next kind =>
    refine ⟨t, next, .inl free, ?_⟩
    unfold handle; rw [kind]; exact returns_change_iff.mpr rfl
  | @openBrace t free next kind =>
    refine ⟨t, next, .inl free, ?_⟩
    unfold handle; rw [kind]; exact returns_change_iff.mpr rfl
  | @closeBrace t free next kind =>
    refine ⟨t, next, .inl free, ?_⟩
    unfold handle; rw [kind]; exact returns_change_iff.mpr rfl
  | @declaration keyword name kind free next kind_eq name_next name_kind =>
    refine ⟨keyword, next, .inl free, ?_⟩
    unfold handle; rw [kind_eq]
    exact returns_declareEntity_iff.mpr ⟨name, name_next, name_kind, rfl⟩
  | @package keyword name brace free next kind name_next name_kind brace_next brace_kind =>
    refine ⟨keyword, next, .inl free, ?_⟩
    unfold handle; rw [kind]
    exact returns_openPackage_iff.mpr
      ⟨name, brace, name_next, name_kind, brace_next, brace_kind, rfl⟩
  | @keyword keyword operand relation child target next kind subject operand_next operand_kind
      resolved =>
    refine ⟨keyword, next, .inr (by rw [kind]; rfl), ?_⟩
    unfold handle; rw [kind]
    exact returns_keywordRelation_iff.mpr
      ⟨child, operand, target, subject, operand_next, operand_kind, resolved, rfl⟩
  | @arrow left arrow right side relation before after next kind left_eq left_kind family
      left_resolved right_next right_kind right_resolved =>
    refine ⟨arrow, next, .inr (by rw [kind]; rfl), ?_⟩
    unfold handle; rw [kind]
    exact returns_drawArrow_iff.mpr ⟨left, relation, before, right, after, left_eq, left_kind,
      family, left_resolved, right_next, right_kind, right_resolved, rfl⟩

/-- The steps of the loop are the statements. The end mark is never among the
tokens ahead. -/
theorem reads_iff_proceeds {b b' : Builder} (hf : ∀ t ∈ b.feed.ahead, t.kind ≠ .finish) :
    Reads b b' ↔ Proceeds b b' := by
  refine ⟨Reads.proceeds, fun h => ?_⟩
  obtain ⟨t, next, free, h⟩ := proceeds_iff.mp h
  have free : t.kind.isRelation = false → b.pending = none := by
    intro hr; rw [hr] at free; simpa using free
  unfold handle at h
  split at h <;> rename_i kind <;> rw [kind] at free
  · obtain ⟨_, rfl⟩ := returns_pure_iff.mp h
    exact .start (free rfl) next kind
  · exact absurd kind (hf t (List.mem_of_mem_head? next))
  · obtain ⟨name, hn, hk, rfl⟩ := returns_declareEntity_iff.mp h
    exact .declaration (free rfl) next kind hn hk
  · obtain ⟨name, brace, hn, hk, hb, hbk, rfl⟩ := returns_openPackage_iff.mp h
    exact .package (free rfl) next kind hn hk hb hbk
  · cases returns_change_iff.mp h
    exact .name (free rfl) next kind
  · cases returns_change_iff.mp h
    exact .openBrace (free rfl) next kind
  · cases returns_change_iff.mp h
    exact .closeBrace (free rfl) next kind
  · obtain ⟨child, operand, target, hs, hn, hk, hr, rfl⟩ := returns_keywordRelation_iff.mp h
    exact .keyword next kind hs hn hk hr
  · obtain ⟨left, relation, before, right, after, hl, hlk, hrel, hb, hr, hrk, ha, rfl⟩ :=
      returns_drawArrow_iff.mp h
    exact .arrow next kind hl hlk hrel hb hr hrk ha

theorem Reads.feed_suffix {b b' : Builder} (h : Reads b b') :
    b'.feed.ahead <:+ b.feed.ahead ∧ b'.feed.ending = b.feed.ending := by
  have one := List.tail_suffix b.feed.ahead
  have two := (List.tail_suffix b.feed.ahead.tail).trans one
  cases h with
  | start | name | openBrace => exact ⟨one, rfl⟩
  | @closeBrace t =>
    rw [feed_closeBrace]
    exact ⟨one, rfl⟩
  | declaration | keyword | arrow => exact ⟨two, rfl⟩
  | package => exact ⟨(List.tail_suffix b.feed.ahead.tail.tail).trans two, rfl⟩

/-! ## The loop -/

/-- The states that the loop comes through from a state on. -/
def Reaches : Builder → Builder → Prop := Relation.ReflTransGen Proceeds

/-- Where no end mark is among the tokens, the loop reads statement by statement. -/
theorem Reaches.reads {b m : Builder} (h : Reaches b m)
    (hf : ∀ t ∈ b.feed.ahead, t.kind ≠ .finish) :
    Relation.ReflTransGen Reads b m ∧ m.feed.ending = b.feed.ending := by
  induction h using Relation.ReflTransGen.head_induction_on with
  | refl => exact ⟨.refl, rfl⟩
  | head first _ ih =>
    have first := (reads_iff_proceeds hf).mpr first
    obtain ⟨hs, he⟩ := first.feed_suffix
    obtain ⟨rest, hm⟩ := ih fun t ht => hf t (hs.subset ht)
    exact ⟨.head first rest, hm.trans he⟩

/-- All tokens are read and no name waits. -/
structure AtEnd (b : Builder) (mark : Token.EndMark) : Prop where
  exhausted : b.feed.ahead = []
  ending : b.feed.ending = .ok mark
  free : b.pending = none

theorem Proceeds.run_eq {b b' : Builder} (h : Proceeds b b') : b.run = b'.run := by
  rw [run]
  split <;> rename_i heq <;> rw [show step.run b = _ from h] at heq <;> cases heq
  rfl

theorem run_of_finished {b b' : Builder} (h : step.run b = (.ok true, b')) :
    b.run = (.ok b'.graph, b') := by
  rw [run]
  split <;> rename_i found <;> rw [h] at found <;> cases found
  rfl

theorem run_of_error {b b' : Builder} {e : DiagramError} (h : step.run b = (.error e, b')) :
    b.run = (.error e, b') := by
  rw [run]
  split <;> rename_i found <;> rw [h] at found <;> cases found
  rfl

theorem Reaches.run_eq {b b' : Builder} (h : Reaches b b') : b.run = b'.run := by
  induction h with
  | refl => rfl
  | tail _ last ih => rw [ih, last.run_eq]

/-- At the end the packages decide. -/
theorem AtEnd.run_eq {b : Builder} {mark : Token.EndMark} (h : b.AtEnd mark) :
    b.run.1 = if b.packages.isEmpty then .ok b.graph
      else .error (.parse (.openPackage b.currentPackage mark.token)) := by
  have taken := returns_take_finish_iff.mpr ⟨h.exhausted, h.ending, rfl⟩
  have stepped : step.run b =
      if b.packages.isEmpty then (.ok true, { b with feed := b.feed.note mark.token })
      else (.error (.parse (.openPackage b.currentPackage mark.token)),
        { b with feed := b.feed.note mark.token }) := by
    unfold step
    rw [run_bind, show take.run b = _ from taken]
    simp only [checkEnd, run_bind, run_state, h.free]
    cases b.packages.isEmpty <;> rfl
  by_cases hp : b.packages.isEmpty
  · rw [if_pos hp] at stepped ⊢
    rw [run_of_finished stepped]
  · rw [if_neg hp] at stepped ⊢
    rw [run_of_error stepped]

theorem atEnd_of_step {b b' : Builder} (h : Returns step b true b') :
    ∃ mark, b.AtEnd mark ∧ b.packages = [] := by
  obtain ⟨taken, m, ht, rest⟩ := returns_bind_iff.mp h
  cases taken with
  | finish mark =>
    obtain ⟨ha, he, rfl⟩ := returns_take_finish_iff.mp ht
    obtain ⟨_, _, checked, _⟩ := returns_bind_iff.mp rest
    have checked := returns_state_bind_iff.mp checked
    cases hp : b.pending with
    | some name => simp only [hp] at checked; exact (not_returns_fail checked).elim
    | none =>
      simp only [hp] at checked
      split at checked
      · rename_i hs
        exact ⟨mark, ⟨ha, he, hp⟩, List.isEmpty_iff.mp hs⟩
      · exact (not_returns_fail checked).elim
  | token t => cases (returns_statement_iff.mp rest).1

/-- A run that gives a graph comes to the end, and no package is open there. -/
theorem reaches_of_run {b : Builder} {g : Graph} (h : b.run.1 = .ok g) :
    ∃ m mark, Reaches b m ∧ m.AtEnd mark ∧ m.packages = [] ∧ m.graph = g := by
  induction b using run.induct with
  | case1 b b' hs =>
    obtain ⟨mark, hend, hp⟩ := atEnd_of_step hs
    rw [hend.run_eq, hp] at h
    exact ⟨b, mark, .refl, hend, hp, Except.ok.inj h⟩
  | case2 b b' hs _ ih =>
    rw [Proceeds.run_eq hs] at h
    obtain ⟨m, mark, hr, hend⟩ := ih h
    exact ⟨m, mark, .head hs hr, hend⟩
  | case3 b e b' hs =>
    rw [run_of_error hs] at h
    cases h

end Builder

end ClassGraph
