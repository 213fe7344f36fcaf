import ClassGraph.Text.Blank
import ClassGraph.Text.Search
import ClassGraph.Token

/-!
Gaps: what may stand between two tokens and says nothing. A gap is made of pieces: blanks, comments
between `/'` and `'/`, and comments from a single quote to the end of the line.
-/

namespace ClassGraph.Token

open Text

/-- What a text begins with, as far as gaps are concerned. -/
inductive GapPiece where
  | none
  /-- A piece of so many characters, at least one. -/
  | some (length : Nat)
  | unclosed
deriving DecidableEq, Repr

/-- Blanks, or a comment to the end of the line. -/
def lineGap (cs : Text) : GapPiece :=
  match cs with
  | .scalar '\'' :: rest => .some (1 + (rest.takeWhile fun c : CodePoint => c != '\n').length)
  | _ =>
    match (cs.takeWhile isBlank).length with
    | 0 => .none
    | n => .some n

/-- The piece of a gap at the front of a text. The mark that closes a block comment has two
characters of its own. -/
def gapPiece (cs : Text) : GapPiece :=
  match cs with
  | .scalar '/' :: .scalar '\'' :: body =>
    match splitAtWord ("'/" : Text) body with
    | Option.some (inside, _) => .some (inside.length + 4)
    | Option.none => .unclosed
  | _ => lineGap cs

theorem gapPiece_pos {cs : Text} {n : Nat} (h : gapPiece cs = .some n) :
    0 < n ∧ cs ≠ [] := by
  unfold gapPiece at h
  split at h
  · split at h
    · simp only [GapPiece.some.injEq] at h
      exact ⟨by omega, by simp⟩
    · simp at h
  · unfold lineGap at h
    split at h
    · simp only [GapPiece.some.injEq] at h
      exact ⟨by omega, by simp⟩
    · split at h
      · simp at h
      · rename_i n' hn
        simp only [GapPiece.some.injEq] at h
        refine ⟨by have : (cs.takeWhile isBlank).length ≠ 0 := hn; omega, ?_⟩
        rintro rfl
        simp at hn

structure Cursor where
  rest : Text
  position : Position
deriving DecidableEq, Repr

namespace Cursor

def ofText (t : Text) : Cursor := ⟨t, .first⟩

/-- The cursor behind the next `n` characters. -/
def advance (c : Cursor) (n : Nat) : Cursor :=
  ⟨c.rest.drop n, c.position.advance (c.rest.take n)⟩

/-- Goes past all pieces of a gap. An unclosed comment is reported where it begins. -/
def skipGap (c : Cursor) : Except Position Cursor :=
  match h : gapPiece c.rest with
  | .none => .ok c
  | .unclosed => .error c.position
  | .some n =>
    have := gapPiece_pos h
    skipGap (c.advance n)
termination_by c.rest.length
decreasing_by
  have := List.length_pos_iff.mpr this.2
  simp only [advance, List.length_drop]
  omega

/-- Goes past all pieces of a gap up to what is none, or is not closed. -/
def behindGap (c : Cursor) : Cursor :=
  match h : gapPiece c.rest with
  | .some n =>
    have := gapPiece_pos h
    behindGap (c.advance n)
  | _ => c
termination_by c.rest.length
decreasing_by
  have := List.length_pos_iff.mpr this.2
  simp only [advance, List.length_drop]
  omega

theorem length_skipGap {c d : Cursor} (h : c.skipGap = .ok d) :
    d.rest.length ≤ c.rest.length := by
  fun_induction skipGap c with
  | case1 c hn =>
    simp only [Except.ok.injEq] at h
    exact h ▸ Nat.le_refl _
  | case2 c hn => simp at h
  | case3 c n hn _ ih =>
    have := ih h
    simp only [advance, List.length_drop] at this
    omega

end Cursor

end ClassGraph.Token
