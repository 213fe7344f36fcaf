import ClassGraph.Error
import ClassGraph.Token.Gap
import ClassGraph.Token.Rule

/-!
Reading tokens off a text. Every text has one fixed stream: the tokens before its end, and then the
end mark, or the place where no further token can be read, for ever. `Lexer` hands out the stream
one token at a time and remembers the last two.
-/

namespace ClassGraph

namespace Token

/-- The end of a stream: an end mark, or the end of the text, which has no characters. -/
structure EndMark where
  text : Text
  position : Position
deriving DecidableEq, Repr

def EndMark.token (mark : EndMark) : Token := ⟨.finish, mark.text, mark.position⟩

inductive Found where
  /-- A token, and the text behind it. -/
  | token (token : Token) (rest : Cursor)
  /-- The end mark, or the end of the text. -/
  | finish (mark : EndMark)
  | error (e : LexError)

def readHere (c : Cursor) : Found :=
  match c.rest with
  | [] => .finish ⟨"", c.position⟩
  | first :: _ =>
    match recognize c.rest with
    | some (kind, n) =>
      let text := c.rest.take n
      if kind = .finish then .finish ⟨text, c.position⟩
      else .token ⟨kind, text, c.position⟩ (c.advance n)
    | none =>
      .error ⟨if first = '"' then .openQuote else .strayCharacter first, c.position⟩

def readNext (c : Cursor) : Found :=
  match c.skipGap with
  | .error position => .error ⟨.openComment, position⟩
  | .ok c => readHere c

theorem length_readHere {c rest : Cursor} {token : Token}
    (h : readHere c = .token token rest) : rest.rest.length < c.rest.length := by
  unfold readHere at h
  split at h
  · simp at h
  · split at h
    · rename_i kind n hr
      obtain ⟨hn, hle⟩ := recognize_fits hr
      simp only at h
      split at h
      · simp at h
      · simp only [Found.token.injEq] at h
        obtain ⟨_, rfl⟩ := h
        simp only [Cursor.advance, List.length_drop]
        omega
    · simp at h

theorem length_readNext {c rest : Cursor} {token : Token}
    (h : readNext c = .token token rest) : rest.rest.length < c.rest.length := by
  unfold readNext at h
  split at h
  · simp at h
  · rename_i d hd
    have := Cursor.length_skipGap hd
    have := length_readHere h
    omega

end Token

/-- How the tokens of a text end: in an end mark, or where no token can be read. -/
abbrev Ending := Except LexError Token.EndMark

namespace Token

/-- The tokens from some place on, and their ending. -/
def readAll (c : Cursor) : List Token × Ending :=
  match h : readNext c with
  | .error e => ([], .error e)
  | .finish mark => ([], .ok mark)
  | .token token rest =>
    have := length_readNext h
    let (tokens, ending) := readAll rest
    (token :: tokens, ending)
termination_by c.rest.length

def stream (source : Text) : List Token × Ending := readAll (.ofText source)

end Token

/-- All tokens of a text, the end mark included. -/
def tokenize (source : Text) : Except LexError (List Token) :=
  match Token.stream source with
  | (tokens, .ok mark) => .ok (tokens ++ [mark.token])
  | (_, .error e) => .error e

/-- A reader of tokens. It stays at the end mark once it has read it. -/
structure Lexer where
  cursor : Token.Cursor
  /-- The end, once it has been read. -/
  finish : Option Token.EndMark
  latest : Option Token
  previous : Option Token
deriving DecidableEq, Repr

namespace Lexer

def ofText (source : Text) : Lexer := ⟨.ofText source, none, none, none⟩

def note (l : Lexer) (token : Token) : Lexer :=
  { l with latest := some token, previous := l.latest }

/-- Reads one token. Where none can be read the reader has gone past the gap in front of that
place, and stays there. -/
def next (l : Lexer) : Except LexError Token × Lexer :=
  match l.finish with
  | some mark => (.ok mark.token, l.note mark.token)
  | none =>
    match Token.readNext l.cursor with
    | .error e => (.error e, { l with cursor := l.cursor.behindGap })
    | .finish mark => (.ok mark.token, { l.note mark.token with finish := some mark })
    | .token token rest => (.ok token, { l.note token with cursor := rest })

def remaining (l : Lexer) : Nat := if l.finish.isSome then 0 else l.cursor.rest.length + 1

/-- A token other than the end mark brings the reader forward, or stands in place of an end mark
that has been read already. -/
theorem remaining_next {l m : Lexer} {token : Token} (h : l.next = (.ok token, m))
    (hf : m.finish = none) : m.remaining < l.remaining := by
  unfold next at h
  split at h
  · rename_i t ht
    simp only [Prod.mk.injEq] at h
    rw [← h.2] at hf
    simp [note, ht] at hf
  · rename_i hl
    split at h
    · simp at h
    · simp only [Prod.mk.injEq] at h
      rw [← h.2] at hf
      simp at hf
    · rename_i t rest hr
      simp only [Prod.mk.injEq] at h
      rw [← h.2]
      have := Token.length_readNext hr
      simp only [remaining, note, hl, Option.isSome_none, Bool.false_eq_true, if_false]
      omega

/-- Reads on up to the end mark, which is read but not listed. Where a token cannot be read the
ones before it are lost. -/
def drain (l : Lexer) : Except LexError (List Token) × Lexer :=
  match h : l.next with
  | (.error e, m) => (.error e, m)
  | (.ok token, m) =>
    match hf : m.finish with
    | some _ => (.ok [], m)
    | none =>
      have := remaining_next h hf
      match drain m with
      | (.error e, n) => (.error e, n)
      | (.ok tokens, n) => (.ok (token :: tokens), n)
termination_by l.remaining

end Lexer

end ClassGraph
