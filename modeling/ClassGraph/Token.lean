import ClassGraph.Arrow
import ClassGraph.Kind

/-! The tokens of a diagram, with the places they stand at. -/

namespace ClassGraph

/-- A place in a text. Lines and columns count from one, columns in characters; only a line feed
begins a new line. A token that no text holds may bear any two numbers. -/
structure Position where
  line : Int
  column : Int
deriving DecidableEq, Repr, Inhabited

namespace Position

def first : Position := ⟨1, 1⟩

def step (p : Position) (c : CodePoint) : Position :=
  if c = '\n' then ⟨p.line + 1, 1⟩ else ⟨p.line, p.column + 1⟩

def advance (p : Position) (cs : Text) : Position := cs.foldl step p

@[simp]
theorem advance_nil (p : Position) : p.advance [] = p := rfl

@[simp]
theorem advance_cons (p : Position) (c : CodePoint) (cs : Text) :
    p.advance (c :: cs) = (p.step c).advance cs := rfl

@[simp]
theorem advance_append (p : Position) (cs ds : Text) :
    p.advance (cs ++ ds) = (p.advance cs).advance ds := List.foldl_append

/-- Messages about a place begin with it. -/
def describe (p : Position) (message : Text) : Text :=
  "Line " ++ toString p.line ++ ", column " ++ toString p.column ++ ": " ++ message

end Position

inductive TokenKind where
  | start
  | finish
  | declare (kind : EntityKind)
  | package
  | name
  | openBrace
  | closeBrace
  | relate (relation : Relation)
  | arrow (side : Side)
deriving DecidableEq, Repr

namespace TokenKind

/-- How a kind of token is called where it has no text of its own. -/
def label : TokenKind → String
  | start => "@startuml"
  | finish => "@enduml"
  | declare kind => kind.tag
  | package => "package"
  | name => "element value"
  | openBrace => "\x7b"
  | closeBrace => "\x7d"
  | relate relation => relation.keyword
  | arrow .left => "left arrow"
  | arrow .right => "right arrow"

def isClassLike : TokenKind → Bool
  | declare _ => true
  | _ => false

/-- The kind has to be followed by a name that it introduces. -/
def isElementKeyword : TokenKind → Bool
  | declare _ => true
  | package => true
  | _ => false

def isRelation : TokenKind → Bool
  | relate _ => true
  | arrow _ => true
  | _ => false

end TokenKind

/-- A token: the exact piece of text and the place of its first character. -/
structure Token where
  kind : TokenKind
  text : Text
  position : Position
deriving DecidableEq, Repr

def unquote? (cs : Text) : Option Text :=
  match cs with
  | .scalar '"' :: rest => if rest.getLast? = some (.scalar '"') then some rest.dropLast else none
  | _ => none

/-- The name that a token denotes: a quoted name stands without its quotation marks, any other
token denotes its text. -/
def Token.value (token : Token) : Text :=
  if token.kind = .name then (unquote? token.text).getD token.text else token.text

end ClassGraph
