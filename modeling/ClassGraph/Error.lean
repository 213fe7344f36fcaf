import ClassGraph.Json.Display
import ClassGraph.Token

/-!
What can be wrong with a diagram, from its characters to the exported tree. Each cause carries what
its message needs.
-/

namespace ClassGraph

/-- Why no token can be read. -/
inductive LexFault where
  | openComment
  | openQuote
  | strayCharacter (c : CodePoint)
deriving DecidableEq, Repr

structure LexError where
  fault : LexFault
  position : Position
deriving DecidableEq, Repr

def LexFault.wording : LexFault → String
  | .openComment => "Unterminated block comment"
  | .openQuote => "Unterminated quoted identifier"
  | .strayCharacter c => "Unexpected character " ++ Text.quoted [c]

def LexError.message (e : LexError) : Text := e.position.describe e.fault.wording

/-- Why a sequence of tokens is no diagram. -/
inductive ParseError where
  /-- A name is followed by something that does not relate it. -/
  | danglingName (name : Token)
  | openPackage (path : Text) (finish : Token)
  | missingBrace (package : Text) (found : Token)
  | missingName (keyword found : Token)
  | missingOperand (arrow : Token)
  /-- A relation mentions a name that is not declared before it. -/
  | unknownName (name : Token)
  /-- A keyword relation stands where nothing is declared yet. -/
  | missingSubject (keyword : Token)
  | unsupportedArrow (family : Arrow.Family) (arrow : Token)
deriving DecidableEq, Repr

namespace ParseError

def token : ParseError → Token
  | danglingName name => name
  | openPackage _ finish => finish
  | missingBrace _ found => found
  | missingName _ found => found
  | missingOperand arrow => arrow
  | unknownName name => name
  | missingSubject keyword => keyword
  | unsupportedArrow _ arrow => arrow

/-- The text of a token, or what its kind is called if it has none. -/
def shown (token : Token) : Text :=
  if token.text.isEmpty then token.kind.label else token.text

def wording : ParseError → Text
  | danglingName name => "Dangling identifier '" ++ name.value ++ "'"
  | openPackage path _ => "Package '" ++ path ++ "' is never closed"
  | missingBrace package found =>
    "Expected '\x7b' after package '" ++ package ++ "', got '" ++ found.text ++ "'"
  | missingName keyword found =>
    "Expected a name after '" ++ keyword.text ++ "', got '" ++ shown found ++ "'"
  | missingOperand arrow => "Arrow '" ++ arrow.text ++ "' has no left-hand class"
  | unknownName name => "Unknown class-like '" ++ name.value ++ "'"
  | missingSubject keyword => "'" ++ keyword.text ++ "' has no class-like to attach to"
  | unsupportedArrow family arrow =>
    "Unsupported " ++ family.label ++ " relation '" ++ arrow.text ++ "'"

def message (e : ParseError) : Text := e.token.position.describe e.wording

/-- The name that could not be resolved, for the errors about names. -/
def unresolved? : ParseError → Option Text
  | unknownName name => some name.value
  | missingSubject keyword => some keyword.text
  | _ => none

end ParseError

/-- The relation that an arrow with its head on the given side states. An arrow of a family that
states neither relation is refused, so that no arrow is lost without notice. -/
def Token.relation (arrow : Token) (side : Side) : Except ParseError Relation :=
  let family := Arrow.family side arrow.text
  match family.relation? with
  | some relation => .ok relation
  | none => .error (.unsupportedArrow family arrow)

/-- Why a value is no exported tree. -/
inductive TreeFault where
  | notArray
  | notRecord (value : Json)
  | unknownTag (tag : Text)
  | missingName (tag : Text)
  | notList (key : String) (name : Text)
deriving BEq

def TreeFault.message : TreeFault → Text
  | .notArray => "Nested tree must be a list of records"
  | .notRecord value => "Expected a single-key record, got " ++ value.literal
  | .unknownTag tag => "Unknown kind tag '" ++ tag ++ "'"
  | .missingName tag => "Record for '" ++ tag ++ "' has no Name"
  | .notList key name => "'" ++ key ++ "' of '" ++ name ++ "' must be a list"

/-- What stops the way from a text to a tree, or from a tree to a graph. -/
inductive DiagramError where
  | lex (e : LexError)
  | parse (e : ParseError)
  | cycle (name : Text)
  | tree (fault : TreeFault)
deriving BEq

namespace DiagramError

def message : DiagramError → Text
  | lex e => e.message
  | parse e => e.message
  | cycle name => "Relation cycle through '" ++ name ++ "', nested tree would be infinite"
  | tree fault => fault.message

/-- The class of an error, as answers of the service name it. -/
def label : DiagramError → String
  | lex _ => "LexerError"
  | parse (.unknownName _) => "ResolutionError"
  | parse (.missingSubject _) => "ResolutionError"
  | parse (.unsupportedArrow _ _) => "UnsupportedRelationError"
  | parse _ => "ParseError"
  | cycle _ => "RelationCycleError"
  | tree _ => "TreeFormatError"

end DiagramError

end ClassGraph
