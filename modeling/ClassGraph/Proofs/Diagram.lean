import ClassGraph.Builder

/-! # What the tokens of a diagram say

A diagram is read here as a sequence of numbered tokens, without a state of
reading. What a token says depends on its neighbours and on the tokens in front
of it: which frames are open there, which entities are declared by then, and
between which of them a relation token draws an edge. `graphBefore` is the
class graph that the first tokens of a diagram describe in this sense.
-/

namespace ClassGraph

/-- The tokens of a text before its end, numbered from zero. -/
abbrev Diagram := List Token

/-- What a pair of braces encloses: a package, or a part without a name. -/
inductive Frame where
  | package (name : Text)
  | plain
deriving DecidableEq

namespace Frame

/-- No package is among the frames. -/
def AllPlain (frames : List Frame) : Prop := ∀ name, .package name ∉ frames

def name? : Frame → Option Text
  | package name => some name
  | plain => none

/-- The path of the packages among nested frames. The innermost frame comes
first, and the path begins with the outermost package. -/
def path (frames : List Frame) : Text := Text.join "/" (frames.filterMap name?).reverse

end Frame

/-- A declared entity, without its relations. -/
structure Declaration where
  kind : EntityKind
  name : Text
  package : Text
deriving DecidableEq

/-- A relation between two entities, which are numbered in the order of their
declarations. -/
structure Edge where
  child : Nat
  relation : Relation
  target : Nat
deriving DecidableEq

/-- The targets of the edges of one relation from one entity, in order. -/
def Edge.targets (edges : List Edge) (child : Nat) (relation : Relation) : List Nat :=
  (edges.filter fun e => e.child = child ∧ e.relation = relation).map Edge.target

/-- The edge of an arrow between two entities: its head points at the target. -/
def Edge.drawn (side : Side) (relation : Relation) (before after : Nat) : Edge :=
  match side with
  | .left => ⟨after, relation, before⟩
  | .right => ⟨before, relation, after⟩

/-- A declared entity with the relations that some edges give it. -/
def Declaration.entity (edges : List Edge) (i : Nat) (e : Declaration) : Entity :=
  ⟨e.name, .str e.package, e.kind, Edge.targets edges i .inherits, Edge.targets edges i .realizes⟩

namespace Diagram

variable (d : Diagram)

def kindAt (k : Nat) : Option TokenKind := d[k]?.map Token.kind

/-- The token at a number, if it is a name. -/
def nameAt (k : Nat) : Option Token := d[k]?.filter (·.kind = .name)

def tokenBefore : Nat → Option Token
  | 0 => none
  | k + 1 => d[k]?

def nameBefore : Nat → Option Token
  | 0 => none
  | k + 1 => d.nameAt k

/-! ## Frames -/

/-- What the open brace at a number opens: the brace of `package n {` opens
the package `n`, any other brace a plain frame. -/
def frameAt : Nat → Frame
  | k + 2 =>
    match d.kindAt k, d.nameAt (k + 1) with
    | some .package, some name => .package name.value
    | _, _ => .plain
  | _ => .plain

/-- The frames that are open in front of a token, the innermost first. A close
brace ends the innermost frame, and means nothing where no frame is open. -/
def openFrames : Nat → List Frame
  | 0 => []
  | k + 1 =>
    match d.kindAt k with
    | some .openBrace => d.frameAt k :: openFrames k
    | some .closeBrace => (openFrames k).tail
    | _ => openFrames k

/-! ## Declarations -/

/-- What a class-like keyword declares: the token behind it is the name, the
open packages are the package. -/
def declarationAt (k : Nat) : Option Declaration :=
  match d.kindAt k, d[k + 1]? with
  | some (.declare kind), some name => some ⟨kind, name.value, Frame.path (d.openFrames k)⟩
  | _, _ => none

def declarationsBefore (k : Nat) : List Declaration := (List.range k).filterMap d.declarationAt

def declarations : List Declaration := d.declarationsBefore d.length

/-- The entity that a name denotes in front of token `k`: the first one declared
under it by then. -/
def entityNamed (k : Nat) (name : Text) : Option Nat :=
  (d.declarationsBefore k).findIdx? fun e => e.name == name

def lastDeclared (k : Nat) : Option Nat :=
  match (d.declarationsBefore k).length with
  | 0 => none
  | n + 1 => some n

/-! ## Edges -/

/-- Whether the token at a number is the right-hand name of a keyword relation. -/
def isOperandAt : Nat → Bool
  | 0 => false
  | k + 1 =>
    match d.kindAt k, d.nameAt (k + 1) with
    | some (.relate _), some _ => true
    | _, _ => false

/-- The subject of a keyword relation that continues no other one: what the name
in front of it denotes, or else the entity declared last. -/
def ownSubjectAt (k : Nat) : Option Nat :=
  match d.nameBefore k with
  | some name => d.entityNamed k name.value
  | none => d.lastDeclared k

/-- The subject of a keyword relation. Behind the right-hand name of another
keyword relation it is the subject of that one. -/
def subjectAt : Nat → Option Nat
  | 0 => d.ownSubjectAt 0
  | 1 => d.ownSubjectAt 1
  | k + 2 => if d.isOperandAt (k + 1) then subjectAt k else d.ownSubjectAt (k + 2)

/-- The edge that a relation token draws; none where an operand is missing or
denotes nothing, or where an arrow is of another family. A head on the left
makes the name behind the arrow the child, a head on the right the name in
front of it. -/
def edgeAt (k : Nat) : Option Edge := do
  let word ← d[k]?
  match word.kind with
  | .relate relation =>
    let child ← d.subjectAt k
    let target ← d.entityNamed k (← d.nameAt (k + 1)).value
    return ⟨child, relation, target⟩
  | .arrow side =>
    let relation ← (Arrow.family side word.text).relation?
    let before ← d.entityNamed k (← d.nameBefore k).value
    let after ← d.entityNamed k (← d.nameAt (k + 1)).value
    return .drawn side relation before after
  | _ => none

def edgesBefore (k : Nat) : List Edge := (List.range k).filterMap d.edgeAt

def edges : List Edge := d.edgesBefore d.length

/-! ## The graph -/

/-- The class graph of the tokens in front of number `k`: what they declare, in
order, related by the edges that they draw, in order. -/
def graphBefore (k : Nat) : Graph where
  entities := ((d.declarationsBefore k).mapIdx (Declaration.entity (d.edgesBefore k))).toArray
  registry := List.range (d.declarationsBefore k).length

end Diagram

end ClassGraph
