import ClassGraph.Proofs.Failure
import Mathlib.Data.List.Forall2
import Mathlib.Data.Option.Basic

/-! # Two runs in lockstep

Building looks at the kinds of tokens, at what names denote and at how arrows are
written. Of what lies behind it looks at the last token, and only where a relation
comes next; of the relation that is recorded it looks at the subject, and only
where the recorded operand is met again. Two states that agree in this are built
on in the same way, step by step: to the same graph, or to errors of the same
class. Where the tokens stand and how they are spelled does not count.
-/

namespace ClassGraph

/-- What building sees of a token by itself. -/
structure Token.SaysSame (t u : Token) : Prop where
  kind : t.kind = u.kind
  value : t.kind = .name → t.value = u.value
  text : ∀ side, t.kind = .arrow side → t.text = u.text

instance (t u : Token) : Decidable (t.SaysSame u) :=
  decidable_of_iff (t.kind = u.kind ∧ (t.kind = .name → t.value = u.value) ∧
      (t.kind = .arrow .left ∨ t.kind = .arrow .right → t.text = u.text))
    ⟨fun h => ⟨h.1, h.2.1, fun side hk => h.2.2 (by cases side <;> simp [hk])⟩,
      fun h => ⟨h.kind, h.value, fun hk => hk.elim (h.text .left) (h.text .right)⟩⟩

/-- Tokens of two streams that correspond to each other. Equal tokens have equal
counterparts, and only they. -/
structure Token.Pairing (R : Token → Token → Prop) : Prop where
  saysSame : ∀ {t u}, R t u → t.SaysSame u
  unique : ∀ {t u t' u'}, R t u → R t' u' → (t = t' ↔ u = u')

namespace Builder

open Build

variable {α β : Type} {R : Token → Token → Prop} {relates : Prop} {S : α → α → Prop}
  {T : β → β → Prop}

/-- The subject that is recorded for a token: that of the last keyword relation
where the token is its operand. -/
def recorded (b : Builder) (t : Token) : Option Nat :=
  match b.chain with
  | some (operand, subject) => if t = operand then some subject else none
  | none => none

/-- Two states within a statement that differ in corresponding tokens only. What
stands in front of the statement counts if the statement `relates` something. -/
structure Akin (R : Token → Token → Prop) (relates : Prop) (b c : Builder) : Prop where
  graph : b.graph = c.graph
  packages : b.packages = c.packages
  depth : b.depth = c.depth
  pending : Option.Rel R b.pending c.pending
  recorded : ∀ t u, R t u → b.recorded t = c.recorded u
  ahead : List.Forall₂ R b.feed.ahead c.feed.ahead
  ending : b.feed.ending.isOk = c.feed.ending.isOk
  latest : Option.Rel R b.feed.latest c.feed.latest
  previous : relates → Option.Rel R b.feed.previous c.feed.previous

/-- Two ends of a step: results that correspond, in states that are akin, or
errors of one class. -/
inductive Meet (R : Token → Token → Prop) (relates : Prop) (S : α → α → Prop) :
    Except DiagramError α × Builder → Except DiagramError α × Builder → Prop
  | ok {a a' : α} {b c : Builder} (result : S a a') (state : Akin R relates b c) :
      Meet R relates S (.ok a, b) (.ok a', c)
  | error {e e' : DiagramError} {b c : Builder} (label : e.label = e'.label) :
      Meet R relates S (.error e, b) (.error e', c)

/-- Two steps that meet wherever they begin in states that are akin. -/
def Lockstep (R : Token → Token → Prop) (relates : Prop) (S : α → α → Prop) (m m' : Build α) :
    Prop := ∀ b c, Akin R relates b c → Meet R relates S (m.run b) (m'.run c)

theorem lockstep_pure {a a' : α} (h : S a a') : Lockstep R relates S (pure a) (pure a') :=
  fun _ _ state => .ok h state

theorem lockstep_fail {e e' : ParseError}
    (h : (DiagramError.parse e).label = (DiagramError.parse e').label) :
    Lockstep R relates S (fail e) (fail e') := fun _ _ _ => .error h

theorem lockstep_bind {first first' : Build α} {second second' : α → Build β}
    (h₁ : Lockstep R relates S first first')
    (h₂ : ∀ a a', S a a' → Lockstep R relates T (second a) (second' a')) :
    Lockstep R relates T (first >>= second) (first' >>= second') := by
  intro b c state
  have ends := h₁ b c state
  rw [run_bind, run_bind]
  generalize first.run b = x at ends ⊢
  generalize first'.run c = y at ends ⊢
  cases ends with
  | ok result state => exact h₂ _ _ result _ _ state
  | error label => exact .error label

/-- Two runs that decide a question alike take the same branch. -/
theorem lockstep_ite {p p' : Prop} [Decidable p] [Decidable p'] (same : p ↔ p')
    {first first' second second' : Build α} (h₁ : p → Lockstep R relates S first first')
    (h₂ : Lockstep R relates S second second') :
    Lockstep R relates S (if p then first else second) (if p' then first' else second') := by
  by_cases hp : p
  · rw [if_pos hp, if_pos (same.mp hp)]
    exact h₁ hp
  · rw [if_neg hp, if_neg fun hp' => hp (same.mpr hp')]
    exact h₂

theorem lockstep_state : Lockstep R relates (Akin R relates) state state :=
  fun _ _ state => .ok state state

theorem lockstep_change {f f' : Builder → Builder}
    (h : ∀ b c, Akin R relates b c → Akin R relates (f b) (f' c)) :
    Lockstep R relates (fun _ _ => True) (change f) (change f') :=
  fun b c state => .ok trivial (h b c state)

/-! ## The parts of a statement -/

theorem Akin.pass {b c : Builder} {t u : Token} (h : Akin R relates b c) (ht : R t u) :
    Akin R relates (b.pass t) (c.pass u) where
  graph := h.graph
  packages := h.packages
  depth := h.depth
  pending := h.pending
  recorded := h.recorded
  ahead := by
    show List.Forall₂ R b.feed.ahead.tail c.feed.ahead.tail
    rw [← List.drop_one, ← List.drop_one]
    exact List.forall₂_drop 1 h.ahead
  ending := h.ending
  latest := .some ht
  previous _ := h.latest

/-- A token of the right kind is taken in both runs or in neither. The end mark is
of no such kind. -/
theorem lockstep_takeKind (pairing : Token.Pairing R) {kind : TokenKind} (hk : kind ≠ .finish)
    {found found' : Token → Build α} {error error' : Token → ParseError}
    (h : ∀ t u, R t u → t.kind = kind → Lockstep R relates S (found t) (found' u))
    (label : ∀ t u, (DiagramError.parse (error t)).label = (DiagramError.parse (error' u)).label) :
    Lockstep R relates S
      (do
        let taken ← take
        if taken.asToken.kind = kind then found taken.asToken else fail (error taken.asToken))
      (do
        let taken ← take
        if taken.asToken.kind = kind then found' taken.asToken
        else fail (error' taken.asToken)) := by
  intro b c state
  have ahead := state.ahead
  have ending := state.ending
  rw [run_bind, run_bind]
  cases hb : b.feed.ahead with
  | cons t ts =>
    rw [hb, List.forall₂_cons_left_iff] at ahead
    obtain ⟨u, us, ht, _, hc⟩ := ahead
    rw [take_of_token (show b.next? = some t by rw [next?, hb]; rfl),
      take_of_token (show c.next? = some u by rw [next?, hc]; rfl)]
    have same : t.kind = kind ↔ u.kind = kind := by rw [(pairing.saysSame ht).kind]
    exact lockstep_ite same (h t u ht) (lockstep_fail (label t u)) _ _ (state.pass ht)
  | nil =>
    rw [hb, List.forall₂_nil_left_iff] at ahead
    cases he : b.feed.ending with
    | error e =>
      cases he' : c.feed.ending with
      | error e' =>
        rw [take_of_error hb he, take_of_error ahead he']
        exact .error rfl
      | ok mark => rw [he, he'] at ending; cases ending
    | ok mark =>
      cases he' : c.feed.ending with
      | error e' => rw [he, he'] at ending; cases ending
      | ok mark' =>
        rw [take_of_mark hb he, take_of_mark ahead he']
        change Meet R relates S ((if TokenKind.finish = kind then _ else _ : Build α).run _)
          ((if TokenKind.finish = kind then _ else _ : Build α).run _)
        rw [if_neg hk.symm, if_neg hk.symm]
        exact .error (label _ _)

/-- Names of both runs that denote the same. -/
def SameName (R : Token → Token → Prop) (t u : Token) : Prop := R t u ∧ t.value = u.value

theorem sameName (pairing : Token.Pairing R) {t u : Token} (h : R t u) (hk : t.kind = .name) :
    SameName R t u := ⟨h, (pairing.saysSame h).value hk⟩

theorem lockstep_expectName (pairing : Token.Pairing R) (keyword keyword' : Token) :
    Lockstep R relates (SameName R) (expectName keyword) (expectName keyword') :=
  lockstep_takeKind pairing (by decide)
    (fun _ _ h hk => lockstep_pure (sameName pairing h hk)) fun _ _ => rfl

theorem lockstep_resolve {name name' : Token} (h : name.value = name'.value) :
    Lockstep R relates Eq (resolve name) (resolve name') := by
  refine lockstep_bind lockstep_state fun b c state => ?_
  rw [state.graph, h]
  split
  · exact lockstep_pure rfl
  · exact lockstep_fail rfl

theorem lockstep_settle : Lockstep R relates (fun _ _ => True) settle settle :=
  lockstep_change fun _ _ h => { h with pending := .none }

theorem lockstep_relate (child : Nat) (relation : Relation) (target : Nat) :
    Lockstep R relates (fun _ _ => True) (relate child relation target)
      (relate child relation target) :=
  lockstep_change fun _ _ h => { h with graph := congrArg (·.relate child relation target) h.graph }

theorem Akin.currentPackage {b c : Builder} (h : Akin R relates b c) :
    b.currentPackage = c.currentPackage := by
  unfold Builder.currentPackage
  rw [h.packages]

theorem Akin.innerPath {b c : Builder} (h : Akin R relates b c) (name : Text) :
    b.innerPath name = c.innerPath name := by
  unfold Builder.innerPath
  rw [h.packages, h.currentPackage]

theorem lockstep_openPackage (pairing : Token.Pairing R) (keyword keyword' : Token) :
    Lockstep R relates (fun _ _ => True) (openPackage keyword) (openPackage keyword') := by
  refine lockstep_bind (lockstep_expectName pairing _ _) fun t u same => ?_
  simp only [same.2]
  refine lockstep_takeKind pairing (by decide)
    (fun _ _ _ _ => lockstep_change fun b c h => ?_) fun _ _ => rfl
  exact { h with
    packages := by rw [h.innerPath, h.packages, h.depth]
    depth := congrArg (· + 1) h.depth }

theorem Akin.openBrace {b c : Builder} (h : Akin R relates b c) :
    Akin R relates b.openBrace c.openBrace := { h with depth := congrArg (· + 1) h.depth }

theorem Akin.closeBrace {b c : Builder} (h : Akin R relates b c) :
    Akin R relates b.closeBrace c.closeBrace := by
  unfold Builder.closeBrace
  rw [h.packages, h.depth]
  split
  · exact h
  · split
    · split
      · exact { h with packages := rfl, depth := rfl }
      · exact { h with packages := rfl, depth := rfl }
    · exact { h with packages := rfl, depth := rfl }

theorem lockstep_declareEntity (pairing : Token.Pairing R) (keyword keyword' : Token)
    (kind : EntityKind) : Lockstep R relates (fun _ _ => True) (declareEntity keyword kind)
      (declareEntity keyword' kind) := by
  refine lockstep_bind (lockstep_expectName pairing _ _) fun t u same => ?_
  refine lockstep_change fun b c h => ?_
  exact { h with graph := by rw [h.graph, same.2, h.currentPackage] }

/-! ## Relations -/

theorem lockstep_lastDeclared (keyword keyword' : Token) {b c : Builder} (h : b.graph = c.graph) :
    Lockstep R relates Eq (keywordSubject.lastDeclared keyword b)
      (keywordSubject.lastDeclared keyword' c) := by
  unfold keywordSubject.lastDeclared
  rw [h]
  split
  · exact lockstep_pure rfl
  · exact lockstep_fail rfl

/-- Behind a name a keyword relates what it denotes, elsewhere the last declaration. -/
theorem lockstep_ownSubject (pairing : Token.Pairing R) (keyword keyword' : Token) {b c : Builder}
    (h : b.graph = c.graph) {t u : Token} (ht : R t u) :
    Lockstep R relates Eq
      (if t.kind = .name then resolve t else keywordSubject.lastDeclared keyword b)
      (if u.kind = .name then resolve u else keywordSubject.lastDeclared keyword' c) := by
  have same := pairing.saysSame ht
  exact lockstep_ite (by rw [same.kind]) (fun hk => lockstep_resolve (same.value hk))
    (lockstep_lastDeclared _ _ h)

/-- Behind a token the recorded subject counts before any other. -/
theorem subject_of_recorded (b : Builder) (t : Token) (own : Build Nat) :
    (match b.chain with
      | some (operand, subject) => if t = operand then pure subject else own
      | none => own) = (b.recorded t).elim own pure := by
  unfold recorded
  cases b.chain with
  | none => rfl
  | some chain =>
    obtain ⟨operand, subject⟩ := chain
    by_cases h : t = operand
    · simp only [h, if_true, Option.elim]
    · simp only [h, if_false, Option.elim]

theorem lockstep_elim {own own' : Build Nat} (h : Lockstep R relates Eq own own')
    (recorded : Option Nat) :
    Lockstep R relates Eq (recorded.elim own pure) (recorded.elim own' pure) := by
  cases recorded with
  | some subject => exact lockstep_pure rfl
  | none => exact h

/-- The operand of the last keyword relation stands in front of a keyword in both
runs or in neither. -/
theorem lockstep_keywordSubject (pairing : Token.Pairing R) (here : relates)
    (keyword keyword' : Token) :
    Lockstep R relates Eq (keywordSubject keyword) (keywordSubject keyword') := by
  refine lockstep_bind lockstep_settle fun _ _ _ => lockstep_bind lockstep_state fun b c h => ?_
  have previous := h.previous here
  generalize b.feed.previous = x at previous ⊢
  generalize c.feed.previous = y at previous ⊢
  cases previous with
  | none => exact lockstep_lastDeclared _ _ h.graph
  | @some t u ht =>
    have behind := lockstep_elim
      (lockstep_ownSubject pairing keyword keyword' h.graph ht : Lockstep R relates Eq _ _)
      (b.recorded t)
    nth_rewrite 2 [h.recorded t u ht] at behind
    rw [← subject_of_recorded, ← subject_of_recorded] at behind
    exact behind

theorem lockstep_keywordRelation (pairing : Token.Pairing R) (here : relates)
    (keyword keyword' : Token) (relation : Relation) :
    Lockstep R relates (fun _ _ => True) (keywordRelation keyword relation)
      (keywordRelation keyword' relation) := by
  refine lockstep_bind (lockstep_keywordSubject pairing here _ _) fun subject _ hs => ?_
  subst hs
  refine lockstep_bind (lockstep_expectName pairing _ _) fun operand operand' same => ?_
  refine lockstep_bind (lockstep_resolve same.2) fun target _ ht => ?_
  subst ht
  refine lockstep_bind (lockstep_relate _ _ _) fun _ _ _ => ?_
  refine lockstep_change fun b c h => { h with recorded := fun t u ht => ?_ }
  have met : t = operand ↔ u = operand' := pairing.unique ht same.1
  simp only [recorded, met]

theorem lockstep_leftOperand (pairing : Token.Pairing R) (here : relates) (arrow arrow' : Token) :
    Lockstep R relates (SameName R) (leftOperand arrow) (leftOperand arrow') := by
  refine lockstep_bind lockstep_state fun b c h => ?_
  have previous := h.previous here
  generalize b.feed.previous = x at previous ⊢
  generalize c.feed.previous = y at previous ⊢
  cases previous with
  | none => exact lockstep_fail rfl
  | @some t u ht =>
    have same := (pairing.saysSame ht).kind
    exact lockstep_ite (by rw [same]) (fun hk => lockstep_pure (sameName pairing ht hk))
      (lockstep_fail rfl)

theorem lockstep_arrowRelation {arrow arrow' : Token} (side : Side)
    (h : arrow.text = arrow'.text) :
    Lockstep R relates Eq (arrowRelation arrow side) (arrowRelation arrow' side) := by
  unfold arrowRelation Token.relation
  simp only [h]
  cases (Arrow.family side arrow'.text).relation? with
  | some relation => exact lockstep_pure rfl
  | none => exact lockstep_fail rfl

theorem lockstep_drawArrow (pairing : Token.Pairing R) (here : relates) {arrow arrow' : Token}
    (side : Side) (h : arrow.text = arrow'.text) :
    Lockstep R relates (fun _ _ => True) (drawArrow arrow side) (drawArrow arrow' side) := by
  refine lockstep_bind (lockstep_leftOperand pairing here _ _) fun left left' same => ?_
  refine lockstep_bind (lockstep_arrowRelation side h) fun relation _ hr => ?_
  subst hr
  refine lockstep_bind lockstep_settle fun _ _ _ => ?_
  refine lockstep_bind (lockstep_resolve same.2) fun before _ hb => ?_
  subst hb
  refine lockstep_bind (lockstep_expectName pairing _ _) fun right right' same => ?_
  refine lockstep_bind (lockstep_resolve same.2) fun after _ ha => ?_
  subst ha
  cases side
  · exact lockstep_relate _ _ _
  · exact lockstep_relate _ _ _

/-! ## The loop -/

theorem lockstep_handle (pairing : Token.Pairing R) {t u : Token} (h : R t u)
    (here : t.kind.isRelation = true → relates) :
    Lockstep R relates (fun _ _ => True) (handle t) (handle u) := by
  have same := pairing.saysSame h
  unfold handle
  rw [← same.kind]
  cases hk : t.kind with
  | start => exact lockstep_pure trivial
  | finish => exact lockstep_pure trivial
  | declare kind => exact lockstep_declareEntity pairing _ _ kind
  | package => exact lockstep_openPackage pairing _ _
  | name => exact lockstep_change fun _ _ state => { state with pending := .some h }
  | openBrace => exact lockstep_change fun _ _ state => state.openBrace
  | closeBrace => exact lockstep_change fun _ _ state => state.closeBrace
  | relate relation =>
    exact lockstep_keywordRelation pairing (here (by rw [hk]; rfl)) _ _ relation
  | arrow side =>
    exact lockstep_drawArrow pairing (here (by rw [hk]; rfl)) side (same.text side hk)

theorem lockstep_statement (pairing : Token.Pairing R) {t u : Token} (h : R t u)
    (here : t.kind.isRelation = true → relates) :
    Lockstep R relates Eq (statement t) (statement u) := by
  have handled : Lockstep R relates Eq (handle t >>= fun _ => (pure false : Build Bool))
      (handle u >>= fun _ => pure false) :=
    lockstep_bind (lockstep_handle pairing h here) fun _ _ _ => lockstep_pure rfl
  refine lockstep_bind lockstep_state fun b c state => ?_
  have pending := state.pending
  generalize b.pending = x at pending ⊢
  generalize c.pending = y at pending ⊢
  cases pending with
  | none => exact handled
  | some _ =>
    simp only [(pairing.saysSame h).kind]
    split
    · exact handled
    · exact lockstep_fail rfl

/-- Two states between statements that differ in corresponding tokens only. The
last token counts if a relation comes next. -/
structure Abreast (R : Token → Token → Prop) (b c : Builder) : Prop where
  graph : b.graph = c.graph
  packages : b.packages = c.packages
  depth : b.depth = c.depth
  pending : Option.Rel R b.pending c.pending
  recorded : ∀ t u, R t u → b.recorded t = c.recorded u
  ahead : List.Forall₂ R b.feed.ahead c.feed.ahead
  ending : b.feed.ending.isOk = c.feed.ending.isOk
  latest : ∀ t, b.next? = some t → t.kind.isRelation = true →
    Option.Rel R b.feed.latest c.feed.latest

theorem Akin.abreast {b c : Builder} (h : Akin R relates b c) : Abreast R b c :=
  { h with latest := fun _ _ _ => h.latest }

/-- A token is taken in both runs. -/
theorem Abreast.pass {b c : Builder} (h : Abreast R b c) {t u : Token} (ht : R t u)
    (next : b.next? = some t) :
    Akin R (t.kind.isRelation = true) (b.pass t) (c.pass u) where
  graph := h.graph
  packages := h.packages
  depth := h.depth
  pending := h.pending
  recorded := h.recorded
  ahead := by
    show List.Forall₂ R b.feed.ahead.tail c.feed.ahead.tail
    rw [← List.drop_one, ← List.drop_one]
    exact List.forall₂_drop 1 h.ahead
  ending := h.ending
  latest := .some ht
  previous := h.latest t next

/-- Two results of building that are the same graph, or errors of one class. -/
def SameResult (r r' : Except DiagramError Graph) : Prop :=
  (∃ g, r = .ok g ∧ r' = .ok g) ∨ ∃ e e', r = .error e ∧ r' = .error e' ∧ e.label = e'.label

theorem Abreast.answer {b c : Builder} (h : Abreast R b c) : SameResult b.answer c.answer := by
  have ending := h.ending
  have pending := h.pending
  unfold Builder.answer
  rw [h.packages, h.graph]
  cases he : b.feed.ending with
  | error e =>
    cases he' : c.feed.ending with
    | error e' => exact .inr ⟨_, _, rfl, rfl, rfl⟩
    | ok mark => rw [he, he'] at ending; cases ending
  | ok mark =>
    cases he' : c.feed.ending with
    | error e' => rw [he, he'] at ending; cases ending
    | ok mark' =>
      generalize b.pending = x at pending ⊢
      generalize c.pending = y at pending ⊢
      cases pending with
      | some _ => exact .inr ⟨_, _, rfl, rfl, rfl⟩
      | none =>
        cases c.packages.isEmpty with
        | true => exact .inl ⟨_, rfl, rfl⟩
        | false => exact .inr ⟨_, _, rfl, rfl, rfl⟩

/-- Step by step the two runs go on together, to the end or to an error. -/
theorem Abreast.run (pairing : Token.Pairing R) {b c : Builder} (h : Abreast R b c) :
    SameResult b.run.1 c.run.1 := by
  induction hn : b.feed.ahead.length using Nat.strongRecOn generalizing b c with
  | ind n ih =>
    have ahead := h.ahead
    cases hb : b.feed.ahead with
    | nil =>
      rw [hb, List.forall₂_nil_left_iff] at ahead
      obtain ⟨_, stopped, _⟩ := run_of_exhausted hb
      obtain ⟨_, stopped', _⟩ := run_of_exhausted ahead
      rw [stopped, stopped']
      exact h.answer
    | cons t ts =>
      rw [hb, List.forall₂_cons_left_iff] at ahead
      obtain ⟨u, us, ht, _, hc⟩ := ahead
      have next : b.next? = some t := by rw [next?, hb]; rfl
      have next' : c.next? = some u := by rw [next?, hc]; rfl
      have ends := lockstep_statement pairing ht id _ _ (h.pass ht next)
      rw [← step_of_token next, ← step_of_token next'] at ends
      generalize hs : step.run b = x at ends
      generalize hs' : step.run c = y at ends
      cases ends with
      | error label =>
        rw [run_of_error hs, run_of_error hs']
        exact .inr ⟨_, _, rfl, rfl, label⟩
      | @ok done _ b' c' result state =>
        subst result
        cases done with
        | true =>
          rw [run_of_finished hs, run_of_finished hs']
          exact .inl ⟨_, rfl, by rw [state.graph]⟩
        | false =>
          rw [Proceeds.run_eq hs, Proceeds.run_eq hs']
          exact ih _ (hn ▸ length_step hs) state.abreast rfl

end Builder

end ClassGraph
