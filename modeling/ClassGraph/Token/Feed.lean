import ClassGraph.Token.Lexer

/-!
The stream of a text with a place in it: the tokens ahead, and the last two that were taken.
-/

namespace ClassGraph.Token

structure Feed where
  ahead : List Token
  ending : Ending
  latest : Option Token
  previous : Option Token
deriving Repr

namespace Feed

def ofText (source : Text) : Feed :=
  let (tokens, ending) := stream source
  ⟨tokens, ending, none, none⟩

inductive Taken where
  | token (token : Token)
  | finish (mark : EndMark)
deriving DecidableEq, Repr

def Taken.asToken : Taken → Token
  | .token t => t
  | .finish mark => mark.token

def note (f : Feed) (token : Token) : Feed :=
  { f with latest := some token, previous := f.latest }

/-- Takes one token. The end can be taken again and again; an error takes nothing. -/
def next (f : Feed) : Except LexError Taken × Feed :=
  match f.ahead with
  | token :: rest => (.ok (.token token), { f.note token with ahead := rest })
  | [] =>
    match f.ending with
    | .ok mark => (.ok (.finish mark), f.note mark.token)
    | .error e => (.error e, f)

end Feed

end ClassGraph.Token
