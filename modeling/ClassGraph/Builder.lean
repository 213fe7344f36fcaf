import ClassGraph.Graph
import ClassGraph.Token.Feed

/-!
Building a class graph from a stream of tokens. Declarations are registered under the path of the
packages they stand in, and a relation is resolved against what is declared before it. An error
stops the building; it can be taken up again behind the tokens that were read.
-/

namespace ClassGraph

/-- An open package: its path, and the number of braces open around it. -/
structure Scope where
  path : Text
  depth : Nat
deriving DecidableEq, Repr

structure Builder where
  feed : Token.Feed
  graph : Graph
  /-- The open packages, the innermost first. -/
  packages : List Scope
  /-- The number of open braces. -/
  depth : Nat
  /-- A name that waits for a relation. -/
  pending : Option Token
  /-- The right-hand name and the subject of the keyword relation read last. -/
  chain : Option (Token × Nat)

/-- A step of building: from a state to a result or an error, and the state behind it. -/
structure Build (α : Type) where
  run : Builder → Except DiagramError α × Builder

namespace Build

def fail {α : Type} (e : ParseError) : Build α := ⟨fun b => (.error (.parse e), b)⟩

/-- One step after another. An error in the first keeps the state that it left. -/
def andThen {α β : Type} (first : Build α) (second : α → Build β) : Build β where
  run b :=
    match first.run b with
    | (.ok a, b) => (second a).run b
    | (.error e, b) => (.error e, b)

instance : Monad Build where
  pure a := ⟨fun b => (.ok a, b)⟩
  bind := andThen

@[simp]
theorem run_pure {α : Type} (a : α) (b : Builder) : (pure a : Build α).run b = (.ok a, b) := rfl

@[simp]
theorem run_fail {α : Type} (e : ParseError) (b : Builder) :
    (fail e : Build α).run b = (.error (.parse e), b) := rfl

theorem run_bind {α β : Type} (first : Build α) (second : α → Build β) (b : Builder) :
    (first >>= second).run b =
      match first.run b with
      | (.ok a, b) => (second a).run b
      | (.error e, b) => (.error e, b) := rfl

def state : Build Builder := ⟨fun b => (.ok b, b)⟩

@[simp]
theorem run_state (b : Builder) : state.run b = (.ok b, b) := rfl

def change (f : Builder → Builder) : Build Unit := ⟨fun b => (.ok (), f b)⟩

@[simp]
theorem run_change (f : Builder → Builder) (b : Builder) : (change f).run b = (.ok (), f b) := rfl

end Build

namespace Builder

open Build

def ofText (source : Text) : Builder := ⟨.ofText source, .empty, [], 0, none, none⟩

/-- The path of the innermost open package; empty outside of all packages. -/
def currentPackage (b : Builder) : Text :=
  match b.packages with
  | [] => []
  | scope :: _ => scope.path

def take : Build Token.Feed.Taken where
  run b :=
    match b.feed.next with
    | (.ok taken, feed) => (.ok taken, { b with feed })
    | (.error e, feed) => (.error (.lex e), { b with feed })

/-- Takes the name that has to follow a keyword or an arrow. -/
def expectName (keyword : Token) : Build Token := do
  let found := (← take).asToken
  if found.kind = .name then return found
  else fail (.missingName keyword found)

def resolve (name : Token) : Build Nat := do
  match (← state).graph.find? name.value with
  | some i => return i
  | none => fail (.unknownName name)

/-- No name waits any longer. -/
def settle : Build Unit := change fun b => { b with pending := none }

def relate (child : Nat) (relation : Relation) (target : Nat) : Build Unit :=
  change fun b => { b with graph := b.graph.relate child relation target }

def innerPath (b : Builder) (name : Text) : Text :=
  if b.packages.isEmpty then name else b.currentPackage ++ "/" ++ name

/-- A package keyword opens a scope up to the matching brace. -/
def openPackage (keyword : Token) : Build Unit := do
  let name := (← expectName keyword).value
  let brace := (← take).asToken
  if brace.kind = .openBrace then
    change fun b =>
      { b with packages := ⟨b.innerPath name, b.depth⟩ :: b.packages, depth := b.depth + 1 }
  else fail (.missingBrace name brace)

/-- A brace of its own opens no package. -/
def openBrace (b : Builder) : Builder := { b with depth := b.depth + 1 }

/-- A closing brace closes the innermost package if that was opened at its depth. Where nothing is
open it means nothing. -/
def closeBrace (b : Builder) : Builder :=
  match b.depth with
  | 0 => b
  | depth + 1 =>
    match b.packages with
    | scope :: rest =>
      if scope.depth = depth then { b with depth, packages := rest } else { b with depth }
    | [] => { b with depth }

/-- A declaration registers an entity in the current package. -/
def declareEntity (keyword : Token) (kind : EntityKind) : Build Unit := do
  let name := (← expectName keyword).value
  change fun b =>
    { b with graph := b.graph.declare ⟨name, .str b.currentPackage, kind, [], []⟩ }

/-- The subject of a keyword relation: behind the right-hand name of another keyword relation the
subject of that one, behind any other name what it denotes, elsewhere the last declaration. -/
def keywordSubject (keyword : Token) : Build Nat := do
  settle
  let b ← state
  match b.feed.previous with
  | some name =>
    match b.chain with
    | some (operand, subject) =>
      if name = operand then return subject
      else if name.kind = .name then resolve name
      else lastDeclared b
    | none => if name.kind = .name then resolve name else lastDeclared b
  | none => lastDeclared b
where
  lastDeclared (b : Builder) : Build Nat :=
    match b.graph.last? with
    | some i => pure i
    | none => fail (.missingSubject keyword)

def keywordRelation (keyword : Token) (relation : Relation) : Build Unit := do
  let subject ← keywordSubject keyword
  let operand ← expectName keyword
  let target ← resolve operand
  relate subject relation target
  change fun b => { b with chain := some (operand, subject) }

def arrowRelation (arrow : Token) (side : Side) : Build Relation :=
  match arrow.relation side with
  | .ok relation => pure relation
  | .error e => fail e

def leftOperand (arrow : Token) : Build Token := do
  match (← state).feed.previous with
  | some name => if name.kind = .name then return name else fail (.missingOperand arrow)
  | none => fail (.missingOperand arrow)

/-- An arrow relation; the head points at the parent or interface. -/
def drawArrow (arrow : Token) (side : Side) : Build Unit := do
  let left ← leftOperand arrow
  let relation ← arrowRelation arrow side
  settle
  let before ← resolve left
  let after ← resolve (← expectName arrow)
  match side with
  | .left => relate after relation before
  | .right => relate before relation after

/-- What a token means where no name waits, or where the token relates the waiting name. -/
def handle (token : Token) : Build Unit :=
  match token.kind with
  | .start => pure ()
  | .finish => pure ()
  | .declare kind => declareEntity token kind
  | .package => openPackage token
  | .name => change fun b => { b with pending := some token }
  | .openBrace => change openBrace
  | .closeBrace => change closeBrace
  | .relate relation => keywordRelation token relation
  | .arrow side => drawArrow token side

/-- At the end no name may wait and no package may be open. -/
def checkEnd (mark : Token.EndMark) : Build Unit := do
  let b ← state
  match b.pending with
  | some name => fail (.danglingName name)
  | none =>
    if b.packages.isEmpty then return ()
    else fail (.openPackage b.currentPackage mark.token)

/-- Reads one statement, or the end; says whether the end is reached. -/
def step : Build Bool := do
  match ← take with
  | .finish mark =>
    checkEnd mark
    return true
  | .token token =>
    match (← state).pending with
    | some name =>
      if token.kind.isRelation then
        handle token
        return false
      else fail (.danglingName name)
    | none =>
      handle token
      return false

/-! ## Building goes forward -/

/-- A step of building leaves the tokens ahead alone or takes some from the front. -/
def Forward {α : Type} (m : Build α) : Prop := ∀ b, (m.run b).2.feed.ahead <:+ b.feed.ahead

theorem forward_pure {α : Type} (a : α) : Forward (pure a) := fun _ => List.suffix_refl _

theorem forward_fail {α : Type} (e : ParseError) : Forward (fail (α := α) e) :=
  fun _ => List.suffix_refl _

theorem forward_state : Forward state := fun _ => List.suffix_refl _

theorem forward_change {f : Builder → Builder} (h : ∀ b, (f b).feed = b.feed) :
    Forward (change f) := fun b => by simp [h]

theorem forward_bind {α β : Type} {first : Build α} {second : α → Build β}
    (h₁ : Forward first) (h₂ : ∀ a, Forward (second a)) : Forward (first >>= second) := by
  intro b
  rw [run_bind]
  have := h₁ b
  split
  · rename_i a b' h
    rw [h] at this
    exact (h₂ a b').trans this
  · rename_i e b' h
    rwa [h] at this

theorem forward_take : Forward take := by
  intro b
  simp only [take, Token.Feed.next]
  split <;> split at * <;> simp_all [Token.Feed.note]
  all_goals grind

theorem ahead_of_take {b b' : Builder} {token : Token}
    (h : take.run b = (.ok (.token token), b')) : b.feed.ahead = token :: b'.feed.ahead := by
  simp only [take, Token.Feed.next] at h
  cases ha : b.feed.ahead with
  | nil =>
    cases he : b.feed.ending <;> simp [ha, he] at h
  | cons t rest =>
    simp only [ha, Prod.mk.injEq, Except.ok.injEq, Token.Feed.Taken.token.injEq] at h
    obtain ⟨rfl, rfl⟩ := h
    rfl

theorem forward_expectName (keyword : Token) : Forward (expectName keyword) := by
  refine forward_bind forward_take fun taken => ?_
  simp only
  split
  · exact forward_pure _
  · exact forward_fail _

theorem forward_resolve (name : Token) : Forward (resolve name) := by
  refine forward_bind forward_state fun b => ?_
  split
  · exact forward_pure _
  · exact forward_fail _

theorem forward_settle : Forward settle := forward_change fun _ => rfl

theorem forward_relate (child : Nat) (relation : Relation) (target : Nat) :
    Forward (relate child relation target) := forward_change fun _ => rfl

theorem forward_keywordSubject (keyword : Token) : Forward (keywordSubject keyword) := by
  have last (b : Builder) : Forward (keywordSubject.lastDeclared keyword b) := by
    unfold keywordSubject.lastDeclared
    split
    · exact forward_pure _
    · exact forward_fail _
  refine forward_bind forward_settle fun _ => forward_bind forward_state fun b => ?_
  split
  · split
    · split
      · exact forward_pure _
      · split
        · exact forward_resolve _
        · exact last b
    · split
      · exact forward_resolve _
      · exact last b
  · exact last b

theorem forward_keywordRelation (keyword : Token) (relation : Relation) :
    Forward (keywordRelation keyword relation) :=
  forward_bind (forward_keywordSubject _) fun _ =>
    forward_bind (forward_expectName _) fun _ =>
      forward_bind (forward_resolve _) fun _ =>
        forward_bind (forward_relate _ _ _) fun _ => forward_change fun _ => rfl

theorem forward_openPackage (keyword : Token) : Forward (openPackage keyword) := by
  refine forward_bind (forward_expectName _) fun _ => forward_bind forward_take fun _ => ?_
  simp only
  split
  · exact forward_change fun _ => rfl
  · exact forward_fail _

theorem forward_drawArrow (arrow : Token) (side : Side) : Forward (drawArrow arrow side) := by
  have left : Forward (leftOperand arrow) := by
    refine forward_bind forward_state fun b => ?_
    split
    · split
      · exact forward_pure _
      · exact forward_fail _
    · exact forward_fail _
  have relation : Forward (arrowRelation arrow side) := by
    unfold arrowRelation
    split
    · exact forward_pure _
    · exact forward_fail _
  refine forward_bind left fun _ => forward_bind relation fun _ => forward_bind forward_settle
    fun _ => forward_bind (forward_resolve _) fun _ => forward_bind (forward_expectName _)
      fun _ => forward_bind (forward_resolve _) fun _ => ?_
  cases side
  · exact forward_relate _ _ _
  · exact forward_relate _ _ _

theorem feed_closeBrace (b : Builder) : b.closeBrace.feed = b.feed := by
  unfold closeBrace
  split
  · rfl
  · split
    · split <;> rfl
    · rfl

theorem forward_handle (token : Token) : Forward (handle token) := by
  unfold handle
  split
  · exact forward_pure _
  · exact forward_pure _
  · exact forward_bind (forward_expectName _) fun _ => forward_change fun _ => rfl
  · exact forward_openPackage _
  · exact forward_change fun _ => rfl
  · exact forward_change fun _ => rfl
  · exact forward_change feed_closeBrace
  · exact forward_keywordRelation _ _
  · exact forward_drawArrow _ _

theorem suffix_of_handle {m b' : Builder} {token : Token} {done : Bool}
    (h : (handle token >>= fun _ => (pure done : Build Bool)).run m = (.ok false, b')) :
    b'.feed.ahead <:+ m.feed.ahead := by
  have hh := forward_handle token m
  rw [run_bind] at h
  cases hm : (handle token).run m with
  | mk r n =>
    rw [hm] at hh h
    cases r with
    | error e => simp at h
    | ok u =>
      simp only [run_pure, Prod.mk.injEq] at h
      exact h.2 ▸ hh

/-- A step that does not reach the end takes at least one token. -/
theorem length_step {b b' : Builder} (h : step.run b = (.ok false, b')) :
    b'.feed.ahead.length < b.feed.ahead.length := by
  unfold step at h
  rw [run_bind] at h
  cases ht : take.run b with
  | mk r m =>
    rw [ht] at h
    cases r with
    | error e => simp at h
    | ok taken =>
      cases taken with
      | finish mark =>
        simp only [run_bind] at h
        cases hc : (checkEnd mark).run m with
        | mk r n =>
          rw [hc] at h
          cases r <;> simp [run_pure] at h
      | token token =>
        have ha := ahead_of_take ht
        have close (hs : b'.feed.ahead <:+ m.feed.ahead) :
            b'.feed.ahead.length < b.feed.ahead.length := by
          have := hs.length_le
          rw [ha, List.length_cons]
          omega
        simp only at h
        rw [run_bind] at h
        simp only [run_state] at h
        cases hp : m.pending with
        | none =>
          rw [hp] at h
          exact close (suffix_of_handle h)
        | some name =>
          rw [hp] at h
          simp only at h
          split at h
          · exact close (suffix_of_handle h)
          · simp [fail] at h

def run (b : Builder) : Except DiagramError Graph × Builder :=
  match h : step.run b with
  | (.ok true, b') => (.ok b'.graph, b')
  | (.ok false, b') =>
    have := length_step h
    run b'
  | (.error e, b') => (.error e, b')
termination_by b.feed.ahead.length

end Builder

/-- The class graph of a diagram. -/
def parse (source : Text) : Except DiagramError Graph := (Builder.ofText source).run.1

end ClassGraph
