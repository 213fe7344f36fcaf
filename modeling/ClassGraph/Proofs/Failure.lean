import ClassGraph.Proofs.Statement

/-! # What a failed statement leaves

A statement looks before it acts: names are taken and resolved first, and the one
change to the graph or to the open packages comes last and cannot fail. So where
a statement fails, tokens are gone and a name may have stopped waiting, and
nothing else has happened.
-/

namespace ClassGraph.Builder

open Build

variable {α β : Type}

/-- From one state to another only tokens were taken, and a name may have stopped
waiting. -/
structure Spares (b b' : Builder) : Prop where
  graph : b'.graph = b.graph
  packages : b'.packages = b.packages
  depth : b'.depth = b.depth
  chain : b'.chain = b.chain
  pending : b'.pending = b.pending ∨ b'.pending = none
  ahead : b'.feed.ahead <:+ b.feed.ahead
  ending : b'.feed.ending = b.feed.ending

theorem Spares.refl (b : Builder) : Spares b b :=
  ⟨rfl, rfl, rfl, rfl, .inl rfl, List.suffix_refl _, rfl⟩

theorem Spares.trans {b₁ b₂ b₃ : Builder} (h : Spares b₁ b₂) (h' : Spares b₂ b₃) :
    Spares b₁ b₃ where
  graph := h'.graph.trans h.graph
  packages := h'.packages.trans h.packages
  depth := h'.depth.trans h.depth
  chain := h'.chain.trans h.chain
  pending := by
    rcases h'.pending with e | e
    · rw [e]; exact h.pending
    · exact .inr e
  ahead := h'.ahead.trans h.ahead
  ending := h'.ending.trans h.ending

/-- A step that spares everything, whether it fails or not. -/
def Looks (m : Build α) : Prop := ∀ b, Spares b (m.run b).2

/-- A step that spares everything if it fails. -/
def Withdraws (m : Build α) : Prop := ∀ b e b', m.run b = (.error e, b') → Spares b b'

theorem looks_pure (a : α) : Looks (pure a) := Spares.refl

theorem looks_fail (e : ParseError) : Looks (fail (α := α) e) := Spares.refl

theorem looks_state : Looks state := Spares.refl

theorem looks_settle : Looks settle := fun _ =>
  ⟨rfl, rfl, rfl, rfl, .inr rfl, List.suffix_refl _, rfl⟩

theorem looks_bind {first : Build α} {second : α → Build β} (h : Looks first)
    (h' : ∀ a, Looks (second a)) : Looks (first >>= second) := by
  intro b
  have looked := h b
  rw [run_bind]
  cases hm : first.run b with
  | mk r m =>
    rw [hm] at looked
    cases r with
    | ok a => exact looked.trans (h' a m)
    | error e => exact looked

theorem Looks.withdraws {m : Build α} (h : Looks m) : Withdraws m := by
  intro b e b' failed
  have looked := h b
  rw [failed] at looked
  exact looked

theorem withdraws_bind {first : Build α} {second : α → Build β} (h : Looks first)
    (h' : ∀ a, Withdraws (second a)) : Withdraws (first >>= second) := by
  intro b e b' failed
  have looked := h b
  rw [run_bind] at failed
  cases hm : first.run b with
  | mk r m =>
    rw [hm] at looked failed
    cases r with
    | ok a => exact looked.trans (h' a m e b' failed)
    | error e => cases failed; exact looked

/-- A step that cannot fail. -/
def Succeeds (m : Build α) : Prop := ∀ b e b', m.run b ≠ (.error e, b')

theorem succeeds_pure (a : α) : Succeeds (pure a) := by
  intro b e b' failed
  rw [run_pure] at failed
  cases failed

theorem succeeds_change (f : Builder → Builder) : Succeeds (change f) := by
  intro b e b' failed
  rw [run_change] at failed
  cases failed

theorem Succeeds.withdraws {m : Build α} (h : Succeeds m) : Withdraws m :=
  fun b e b' failed => absurd failed (h b e b')

/-- What cannot fail may come after a change. -/
theorem withdraws_bind_succeeds {first : Build α} {second : α → Build β} (h : Withdraws first)
    (h' : ∀ a, Succeeds (second a)) : Withdraws (first >>= second) := by
  intro b e b' failed
  rw [run_bind] at failed
  cases hm : first.run b with
  | mk r m =>
    rw [hm] at failed
    cases r with
    | ok a => exact absurd failed (h' a m e b')
    | error e => cases failed; exact h b e _ hm

/-! ## The parts of a statement -/

theorem looks_take : Looks take := by
  intro b
  simp only [take, Token.Feed.next]
  cases ha : b.feed.ahead with
  | cons t rest =>
    refine ⟨rfl, rfl, rfl, rfl, .inl rfl, ?_, rfl⟩
    rw [ha]
    exact List.suffix_cons t rest
  | nil =>
    cases he : b.feed.ending with
    | ok mark => exact ⟨rfl, rfl, rfl, rfl, .inl rfl, List.suffix_refl _, rfl⟩
    | error e => exact .refl b

theorem looks_expectName (keyword : Token) : Looks (expectName keyword) := by
  refine looks_bind looks_take fun taken => ?_
  simp only
  split
  · exact looks_pure _
  · exact looks_fail _

theorem looks_resolve (name : Token) : Looks (resolve name) := by
  refine looks_bind looks_state fun b => ?_
  split
  · exact looks_pure _
  · exact looks_fail _

theorem looks_keywordSubject (keyword : Token) : Looks (keywordSubject keyword) := by
  have last (b : Builder) : Looks (keywordSubject.lastDeclared keyword b) := by
    unfold keywordSubject.lastDeclared
    split
    · exact looks_pure _
    · exact looks_fail _
  have own (name : Token) (b : Builder) : Looks (if name.kind = .name then resolve name
      else keywordSubject.lastDeclared keyword b) := by
    split
    · exact looks_resolve _
    · exact last b
  refine looks_bind looks_settle fun _ => looks_bind looks_state fun b => ?_
  split
  · split
    · split
      · exact looks_pure _
      · exact own _ b
    · exact own _ b
  · exact last b

theorem looks_leftOperand (arrow : Token) : Looks (leftOperand arrow) := by
  refine looks_bind looks_state fun b => ?_
  split
  · split
    · exact looks_pure _
    · exact looks_fail _
  · exact looks_fail _

theorem looks_arrowRelation (arrow : Token) (side : Side) : Looks (arrowRelation arrow side) := by
  unfold arrowRelation
  split
  · exact looks_pure _
  · exact looks_fail _

theorem looks_checkEnd (mark : Token.EndMark) : Looks (checkEnd mark) := by
  refine looks_bind looks_state fun b => ?_
  split
  · exact looks_fail _
  · split
    · exact looks_pure _
    · exact looks_fail _

/-! ## Statements -/

theorem withdraws_declareEntity (keyword : Token) (kind : EntityKind) :
    Withdraws (declareEntity keyword kind) :=
  withdraws_bind (looks_expectName _) fun _ => (succeeds_change _).withdraws

theorem withdraws_openPackage (keyword : Token) : Withdraws (openPackage keyword) := by
  refine withdraws_bind (looks_expectName _) fun _ => withdraws_bind looks_take fun _ => ?_
  simp only
  split
  · exact (succeeds_change _).withdraws
  · exact (looks_fail _).withdraws

theorem withdraws_keywordRelation (keyword : Token) (relation : Relation) :
    Withdraws (keywordRelation keyword relation) :=
  withdraws_bind (looks_keywordSubject _) fun _ =>
    withdraws_bind (looks_expectName _) fun _ =>
      withdraws_bind (looks_resolve _) fun _ =>
        withdraws_bind_succeeds (succeeds_change _).withdraws fun _ => succeeds_change _

theorem withdraws_drawArrow (arrow : Token) (side : Side) : Withdraws (drawArrow arrow side) := by
  refine withdraws_bind (looks_leftOperand _) fun _ =>
    withdraws_bind (looks_arrowRelation _ _) fun _ => withdraws_bind looks_settle fun _ =>
      withdraws_bind (looks_resolve _) fun _ => withdraws_bind (looks_expectName _) fun _ =>
        withdraws_bind (looks_resolve _) fun _ => ?_
  cases side <;> exact (succeeds_change _).withdraws

theorem withdraws_handle (token : Token) : Withdraws (handle token) := by
  unfold handle
  split
  · exact (looks_pure _).withdraws
  · exact (looks_pure _).withdraws
  · exact withdraws_declareEntity _ _
  · exact withdraws_openPackage _
  · exact (succeeds_change _).withdraws
  · exact (succeeds_change _).withdraws
  · exact (succeeds_change _).withdraws
  · exact withdraws_keywordRelation _ _
  · exact withdraws_drawArrow _ _

/-- What the loop does behind a token. -/
def statement (t : Token) : Build Bool := do
  match (← state).pending with
  | some name =>
    if t.kind.isRelation then
      handle t
      return false
    else fail (.danglingName name)
  | none =>
    handle t
    return false

theorem withdraws_statement (t : Token) : Withdraws (statement t) := by
  have handled : Withdraws (handle t >>= fun _ => (pure false : Build Bool)) :=
    withdraws_bind_succeeds (withdraws_handle t) fun _ => succeeds_pure _
  refine withdraws_bind looks_state fun b => ?_
  split
  · split
    · exact handled
    · exact (looks_fail _).withdraws
  · exact handled

theorem withdraws_step : Withdraws step := by
  refine withdraws_bind looks_take fun taken => ?_
  cases taken with
  | finish mark => exact (looks_bind (looks_checkEnd mark) fun _ => looks_pure true).withdraws
  | token t => exact withdraws_statement t

/-- Reaching the end changes nothing either. -/
theorem spares_of_returns_end {b b' : Builder} (h : Returns step b true b') : Spares b b' := by
  obtain ⟨taken, m, ht, rest⟩ := returns_bind_iff.mp h
  cases taken with
  | finish mark =>
    have first := looks_take b
    have ended := looks_bind (looks_checkEnd mark) (fun _ => looks_pure true) m
    rw [show take.run b = _ from ht] at first
    rw [show (checkEnd mark >>= fun _ => pure true : Build Bool).run m = _ from rest] at ended
    exact first.trans ended
  | token t => cases (returns_statement_iff.mp rest).1

/-! ## Runs -/

/-- A run comes to a last state and stops there: at the end, or because the
statement that begins there fails. -/
theorem run_stops (b : Builder) : ∃ m, Reaches b m ∧ Spares m b.run.2 ∧
    ((Returns step m true b.run.2 ∧ b.run.1 = .ok b.run.2.graph) ∨
      ∃ e, step.run m = (.error e, b.run.2) ∧ b.run.1 = .error e) := by
  induction b using run.induct with
  | case1 b b' hs =>
    rw [run_of_finished hs]
    exact ⟨b, .refl, spares_of_returns_end hs, .inl ⟨hs, rfl⟩⟩
  | case2 b b' hs _ ih =>
    rw [Proceeds.run_eq hs]
    obtain ⟨m, reach, stop⟩ := ih
    exact ⟨m, .head hs reach, stop⟩
  | case3 b e b' hs =>
    rw [run_of_error hs]
    exact ⟨b, .refl, withdraws_step b e b' hs, .inr ⟨e, hs, rfl⟩⟩

/-! ## Where a step begins -/

theorem take_of_token {b : Builder} {t : Token} (h : b.next? = some t) :
    take.run b = (.ok (.token t), b.pass t) := returns_take_token_iff.mpr ⟨h, rfl⟩

theorem take_of_mark {b : Builder} {mark : Token.EndMark} (h : b.feed.ahead = [])
    (he : b.feed.ending = .ok mark) :
    take.run b = (.ok (.finish mark), { b with feed := b.feed.note mark.token }) :=
  returns_take_finish_iff.mpr ⟨h, he, rfl⟩

theorem take_of_error {b : Builder} {e : LexError} (h : b.feed.ahead = [])
    (he : b.feed.ending = .error e) : take.run b = (.error (.lex e), b) := by
  simp only [take, Token.Feed.next, h, he]

theorem step_of_token {b : Builder} {t : Token} (h : b.next? = some t) :
    step.run b = (statement t).run (b.pass t) := by
  unfold step
  rw [run_bind, take_of_token h]
  rfl

/-! ## Runs without tokens -/

/-- The result of a run without tokens. -/
def answer (b : Builder) : Except DiagramError Graph :=
  match b.feed.ending with
  | .error e => .error (.lex e)
  | .ok mark =>
    match b.pending with
    | some name => .error (.parse (.danglingName name))
    | none =>
      if b.packages.isEmpty then .ok b.graph
      else .error (.parse (.openPackage b.currentPackage mark.token))

theorem eq_of_answer {b : Builder} {g : Graph} (h : b.answer = .ok g) : g = b.graph := by
  unfold answer at h
  split at h
  · cases h
  split at h
  · cases h
  split at h
  · exact (Except.ok.inj h).symm
  · cases h

theorem step_of_exhausted {b : Builder} {mark : Token.EndMark} (h : b.feed.ahead = [])
    (he : b.feed.ending = .ok mark) :
    step.run b = (b.answer.map fun _ => true, { b with feed := b.feed.note mark.token }) := by
  unfold step answer
  rw [run_bind, take_of_mark h he, he]
  simp only [checkEnd, run_bind, run_state]
  cases b.pending with
  | some name => rfl
  | none => cases b.packages.isEmpty <;> rfl

/-- Without tokens a run ends with its first step, which only notes the end mark. -/
theorem run_of_exhausted {b : Builder} (h : b.feed.ahead = []) :
    ∃ feed : Token.Feed, b.run = (b.answer, { b with feed }) ∧ feed.ahead = [] ∧
      feed.ending = b.feed.ending := by
  cases he : b.feed.ending with
  | error e =>
    have failed : step.run b = (.error (.lex e), b) := by
      unfold step
      rw [run_bind, take_of_error h he]
    refine ⟨b.feed, ?_, h, he⟩
    rw [run_of_error failed]
    simp only [answer, he]
  | ok mark =>
    have stepped := step_of_exhausted h he
    refine ⟨b.feed.note mark.token, ?_, h, he⟩
    cases ha : b.answer with
    | error e =>
      rw [ha] at stepped
      exact run_of_error stepped
    | ok g =>
      rw [ha] at stepped
      rw [run_of_finished stepped, eq_of_answer ha]

/-! ## Runs take tokens -/

theorem Looks.forward {m : Build α} (h : Looks m) : Forward m := fun b => (h b).ahead

theorem forward_statement (t : Token) : Forward (statement t) := by
  have handled : Forward (handle t >>= fun _ => (pure false : Build Bool)) :=
    forward_bind (forward_handle t) fun _ => forward_pure _
  refine forward_bind forward_state fun b => ?_
  split
  · split
    · exact handled
    · exact forward_fail _
  · exact handled

theorem forward_step : Forward step := by
  refine forward_bind forward_take fun taken => ?_
  cases taken with
  | finish mark => exact (looks_bind (looks_checkEnd mark) fun _ => looks_pure true).forward
  | token t => exact forward_statement t

/-- A step that finds a token takes it, whatever comes of it. -/
theorem ahead_of_step (b : Builder) : (step.run b).2.feed.ahead <:+ b.feed.ahead.tail := by
  cases ha : b.feed.ahead with
  | nil =>
    have forward := forward_step b
    rw [ha] at forward
    exact forward
  | cons t rest =>
    have next : b.next? = some t := by rw [next?, ha]; rfl
    have forward := forward_statement t (b.pass t)
    rw [show (b.pass t).feed.ahead = rest from congrArg List.tail ha] at forward
    rw [step_of_token next]
    exact forward

theorem ahead_of_run (b : Builder) : b.run.2.feed.ahead <:+ b.feed.ahead.tail := by
  have first := ahead_of_step b
  induction b using run.induct with
  | case1 b b' hs =>
    rw [hs] at first
    rw [run_of_finished hs]
    exact first
  | case2 b b' hs _ ih =>
    rw [hs] at first
    rw [Proceeds.run_eq hs]
    exact (ih (ahead_of_step b')).trans ((List.tail_suffix _).trans first)
  | case3 b e b' hs =>
    rw [hs] at first
    rw [run_of_error hs]
    exact first

end ClassGraph.Builder
