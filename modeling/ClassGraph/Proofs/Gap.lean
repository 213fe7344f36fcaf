import ClassGraph.Proofs.Search
import ClassGraph.Token.Lexer
import Mathlib.Data.List.TakeWhile

/-! # What stands between two tokens

A gap is a sequence of blanks and comments. The reader goes past whole runs of
blanks; that makes no difference, because a run is gone past blank by blank as
well. So it stops behind a gap exactly where nothing of a gap goes on. Such a
place is the beginning of a token, the end of the text, or the place of an
error: an open comment, or characters that no rule fits.
-/

namespace ClassGraph

open Text

/-- The line ends here, or the text does. -/
def Text.AtLineEnd (cs : Text) : Prop := cs = [] ∨ ∃ rest, cs = .scalar '\n' :: rest

namespace Token

/-- A sequence of blanks and comments in front of a text. A comment between marks
ends with the first closing mark behind the opening one, and a comment of a line
takes the rest of the line. -/
inductive Gap : Text → Text → Prop
  | nil {behind : Text} : Gap [] behind
  | blank {c : CodePoint} {cs behind : Text} (blank : isBlank c = true) (rest : Gap cs behind) :
      Gap (c :: cs) behind
  | block {body cs behind : Text} (inside : ¬ ("'/" : Text) <:+: body) (rest : Gap cs behind) :
      Gap (("/'" : Text) ++ body ++ ("'/" : Text) ++ cs) behind
  | line {body cs behind : Text} (inside : .scalar '\n' ∉ body)
      (ends : Text.AtLineEnd (cs ++ behind)) (rest : Gap cs behind) :
      Gap (("'" : Text) ++ body ++ cs) behind

/-- Nothing of a gap begins here. -/
def Solid (cs : Text) : Prop := ∀ gap behind, cs = gap ++ behind → Gap gap behind → gap = []

/-- A comment begins here that is never closed. -/
def OpenComment (cs : Text) : Prop := ∃ body, cs = ("/'" : Text) ++ body ∧ ¬ ("'/" : Text) <:+: body

/-! ## Pieces of a gap -/

theorem gapPiece_block {body behind : Text} (h : ¬ ("'/" : Text) <:+: body) :
    gapPiece (("/'" : Text) ++ body ++ ("'/" : Text) ++ behind) = .some (body.length + 4) := by
  have closed : splitAtWord ("'/" : Text) (body ++ (("'/" : Text) ++ behind)) =
      some (body, behind) := (splitAtWord_eq_some_iff (by decide)).mpr ⟨rfl, h⟩
  rw [List.append_assoc _ _ behind, List.append_assoc]
  show gapPiece (.scalar '/' :: .scalar '\'' :: (body ++ (("'/" : Text) ++ behind))) = _
  simp only [gapPiece, closed]

theorem gapPiece_openComment {cs : Text} (h : OpenComment cs) : gapPiece cs = .unclosed := by
  obtain ⟨body, rfl, open_⟩ := h
  show gapPiece (.scalar '/' :: .scalar '\'' :: body) = _
  simp only [gapPiece, splitAtWord_eq_none_iff.mpr open_]

theorem gapPiece_line (cs : Text) : gapPiece (("'" : Text) ++ cs) =
    .some (1 + (cs.takeWhile fun c : CodePoint => c != '\n').length) := rfl

/-- A blank begins a run of blanks. -/
theorem gapPiece_blank {c : CodePoint} {cs : Text} (h : isBlank c = true) :
    gapPiece (c :: cs) = .some (1 + (cs.takeWhile isBlank).length) := by
  unfold gapPiece
  split
  · rename_i he
    cases he
    exact absurd h (by decide)
  · unfold lineGap
    split
    · rename_i he
      cases he
      exact absurd h (by decide)
    · simp only [List.takeWhile_cons, h, if_true, List.length_cons]
      rw [Nat.add_comm]

theorem gapPiece_eq_unclosed_iff {cs : Text} : gapPiece cs = .unclosed ↔ OpenComment cs := by
  refine ⟨fun h => ?_, gapPiece_openComment⟩
  unfold gapPiece at h
  split at h
  · rename_i body
    split at h
    · cases h
    · rename_i hs
      exact ⟨body, rfl, splitAtWord_eq_none_iff.mp hs⟩
  · unfold lineGap at h
    split at h
    · cases h
    · split at h <;> cases h

theorem Gap.append {gap gap' behind : Text} (h : Gap gap (gap' ++ behind)) (h' : Gap gap' behind) :
    Gap (gap ++ gap') behind := by
  generalize hb : gap' ++ behind = rest at h
  induction h with
  | nil => exact h'
  | blank blank _ ih => exact .blank blank (ih hb)
  | block inside _ ih =>
    rw [List.append_assoc]
    exact .block inside (ih hb)
  | line inside ends _ ih =>
    subst hb
    rw [List.append_assoc]
    exact .line inside (by rwa [List.append_assoc]) (ih rfl)

theorem Gap.blanks {bs cs behind : Text} (h : ∀ c ∈ bs, isBlank c = true) (rest : Gap cs behind) :
    Gap (bs ++ cs) behind := by
  induction bs with
  | nil => exact rest
  | cons c bs ih =>
    exact .blank (h c List.mem_cons_self) (ih fun d hd => h d (List.mem_cons_of_mem _ hd))

theorem atLineEnd_dropWhile (cs : Text) :
    Text.AtLineEnd (cs.dropWhile fun c : CodePoint => c != '\n') := by
  cases h : cs.dropWhile fun c : CodePoint => c != '\n' with
  | nil => exact .inl rfl
  | cons c rest =>
    have stops := List.head_dropWhile_not (fun c : CodePoint => c != '\n') (l := cs)
      (by rw [h]; nofun)
    simp only [h, List.head_cons, bne_eq_false_iff_eq] at stops
    exact .inr ⟨rest, by rw [stops]⟩

theorem takeWhile_line {body behind : Text} (inside : .scalar '\n' ∉ body)
    (ends : Text.AtLineEnd behind) :
    (body ++ behind).takeWhile (fun c : CodePoint => c != '\n') = body := by
  rw [List.takeWhile_append_of_pos fun c hc => ?_]
  · rcases ends with rfl | ⟨rest, rfl⟩
    · simp
    · simp
  · rw [bne_iff_ne]
    rintro rfl
    exact inside hc

/-- A piece is cut off the front, and makes any gap that follows it longer. -/
theorem exists_of_gapPiece {cs : Text} {n : Nat} (h : gapPiece cs = .some n) :
    ∃ piece tail, cs = piece ++ tail ∧ piece.length = n ∧
      ∀ gap behind, tail = gap ++ behind → Gap gap behind → Gap (piece ++ gap) behind := by
  unfold gapPiece at h
  split at h
  · rename_i body
    split at h
    · rename_i inside tail hs
      obtain ⟨rfl, hi⟩ := (splitAtWord_eq_some_iff (by decide)).mp hs
      cases h
      refine ⟨("/'" : Text) ++ inside ++ ("'/" : Text), tail, ?_, ?_, ?_⟩
      · rw [List.append_assoc, List.append_assoc]; rfl
      · rw [List.length_append, List.length_append, Nat.add_comm _ inside.length]; rfl
      · intro gap behind _ rest
        exact .block hi rest
    · cases h
  · unfold lineGap at h
    split at h
    · rename_i rest _
      cases h
      let line := rest.takeWhile fun c : CodePoint => c != '\n'
      refine ⟨("'" : Text) ++ line, rest.dropWhile fun c : CodePoint => c != '\n', ?_, ?_, ?_⟩
      · rw [List.append_assoc, List.takeWhile_append_dropWhile]; rfl
      · rw [List.length_append]; rfl
      · intro gap behind hd gapped
        refine .line (fun hm => ?_) (hd ▸ atLineEnd_dropWhile rest) gapped
        exact absurd (List.mem_takeWhile_imp hm) (by decide)
    · split at h
      · cases h
      · cases h
        refine ⟨cs.takeWhile isBlank, cs.dropWhile isBlank, ?_, rfl, ?_⟩
        · exact List.takeWhile_append_dropWhile.symm
        · intro gap behind _ rest
          exact rest.blanks fun c hc => List.mem_takeWhile_imp hc

/-- A gap that is not empty begins with a piece. -/
theorem exists_gapPiece {gap behind : Text} (h : Gap gap behind) (hne : gap ≠ []) :
    ∃ n, gapPiece (gap ++ behind) = .some n := by
  cases h with
  | nil => exact absurd rfl hne
  | blank blank _ => exact ⟨_, gapPiece_blank blank⟩
  | @block body cs _ inside _ =>
    rw [List.append_assoc]
    exact ⟨_, gapPiece_block inside⟩
  | line _ _ _ =>
    rw [List.append_assoc, List.append_assoc]
    exact ⟨_, gapPiece_line _⟩

theorem solid_iff {cs : Text} : Solid cs ↔ ∀ n, gapPiece cs ≠ .some n := by
  constructor
  · intro h n hp
    obtain ⟨piece, tail, rfl, hn, makes⟩ := exists_of_gapPiece hp
    have gap := makes [] tail rfl .nil
    rw [List.append_nil] at gap
    rw [h piece tail rfl gap] at hn
    have := (gapPiece_pos hp).1
    rw [List.length_nil] at hn
    omega
  · intro h gap behind he hg
    by_contra hne
    obtain ⟨n, hn⟩ := exists_gapPiece hg hne
    exact h n (he ▸ hn)

theorem gapPiece_eq_none_iff {cs : Text} : gapPiece cs = .none ↔ Solid cs ∧ ¬ OpenComment cs := by
  rw [solid_iff, ← gapPiece_eq_unclosed_iff]
  cases gapPiece cs <;> simp

theorem OpenComment.solid {cs : Text} (h : OpenComment cs) : Solid cs := by
  rw [solid_iff, gapPiece_openComment h]
  exact nofun

theorem Solid.nil : Solid [] := fun _ _ he _ => (List.append_eq_nil_iff.mp he.symm).1

theorem OpenComment.not_nil : ¬ OpenComment [] := by
  rintro ⟨_, he, _⟩
  cases he

/-! ## The reader goes past a gap -/

namespace Cursor

theorem advance_append (front behind : Text) (p : Position) :
    advance ⟨front ++ behind, p⟩ front.length = ⟨behind, p.advance front⟩ := by
  unfold advance
  rw [List.drop_left, List.take_left]

theorem skipGap_of_some {c : Cursor} {n : Nat} (h : gapPiece c.rest = .some n) :
    c.skipGap = (c.advance n).skipGap := by
  rw [skipGap]
  split <;> rename_i hp <;> rw [h] at hp <;> cases hp
  rfl

theorem skipGap_of_solid {c : Cursor} (h : Solid c.rest) (closed : ¬ OpenComment c.rest) :
    c.skipGap = .ok c := by
  have none := gapPiece_eq_none_iff.mpr ⟨h, closed⟩
  rw [skipGap]
  split <;> rename_i hp <;> rw [none] at hp <;> cases hp

/-- A run of blanks is gone past as blank by blank. -/
theorem skipGap_blank {c : CodePoint} {cs : Text} {p : Position} (h : isBlank c = true) :
    skipGap ⟨c :: cs, p⟩ = skipGap ⟨cs, p.step c⟩ := by
  rw [skipGap_of_some (c := ⟨c :: cs, p⟩) (gapPiece_blank h)]
  cases cs with
  | nil => rfl
  | cons d ds =>
    by_cases hd : isBlank d = true
    · rw [skipGap_of_some (c := ⟨d :: ds, p.step c⟩) (gapPiece_blank hd)]
      rw [List.takeWhile_cons, if_pos hd, List.length_cons, Nat.add_comm 1, Nat.add_comm 1]
      rfl
    · rw [List.takeWhile_cons, if_neg hd]; rfl

theorem skipGap_append {gap behind : Text} (h : Gap gap behind) (p : Position) :
    skipGap ⟨gap ++ behind, p⟩ = skipGap ⟨behind, p.advance gap⟩ := by
  induction h generalizing p with
  | nil => rfl
  | blank blank _ ih => exact (skipGap_blank blank).trans (ih _)
  | @block body cs behind inside _ ih =>
    have piece : ("/'" : Text) ++ body ++ ("'/" : Text) ++ cs ++ behind =
      (("/'" : Text) ++ body ++ ("'/" : Text)) ++ (cs ++ behind) := List.append_assoc _ _ _
    have length : body.length + 4 = (("/'" : Text) ++ body ++ ("'/" : Text)).length := by
      rw [List.length_append, List.length_append, Nat.add_comm _ body.length]; rfl
    rw [piece, skipGap_of_some (c := ⟨_, p⟩) (gapPiece_block inside), length, advance_append, ih,
      ← Position.advance_append]
  | @line body cs behind inside ends _ ih =>
    have piece : ("'" : Text) ++ body ++ cs ++ behind =
      (("'" : Text) ++ body) ++ (cs ++ behind) := List.append_assoc _ _ _
    have length : 1 + body.length = (("'" : Text) ++ body).length := by
      rw [List.length_append]; rfl
    have first : gapPiece ((("'" : Text) ++ body) ++ (cs ++ behind)) = .some (1 + body.length) := by
      rw [List.append_assoc, gapPiece_line, takeWhile_line inside ends]
    rw [piece, skipGap_of_some (c := ⟨_, p⟩) first, length, advance_append, ih,
      ← Position.advance_append]

/-- Where reading goes on behind a gap, nothing of a gap goes on. -/
theorem exists_of_skipGap {c d : Cursor} (h : c.skipGap = .ok d) :
    ∃ gap, c.rest = gap ++ d.rest ∧ Gap gap d.rest ∧ d.position = c.position.advance gap ∧
      Solid d.rest ∧ ¬ OpenComment d.rest := by
  fun_induction skipGap c with
  | case1 c hn =>
    cases h
    exact ⟨[], rfl, .nil, rfl, gapPiece_eq_none_iff.mp hn⟩
  | case2 c hn => cases h
  | case3 c n hn _ ih =>
    obtain ⟨gap, hd, hg, hp, hs⟩ := ih h
    obtain ⟨piece, tail, hc, rfl, makes⟩ := exists_of_gapPiece hn
    have tail_eq : tail = gap ++ d.rest := by
      rw [← hd, advance, hc, List.drop_left]
    refine ⟨piece ++ gap, ?_, makes gap _ tail_eq hg, ?_, hs⟩
    · rw [hc, tail_eq, List.append_assoc]
    · rw [hp, Position.advance_append, advance, hc, List.take_left]

/-- Where reading stops in a gap, a comment is open. -/
theorem exists_of_skipGap_error {c : Cursor} {p : Position} (h : c.skipGap = .error p) :
    ∃ gap behind, c.rest = gap ++ behind ∧ Gap gap behind ∧ p = c.position.advance gap ∧
      OpenComment behind := by
  fun_induction skipGap c with
  | case1 c hn => cases h
  | case2 c hn =>
    cases h
    exact ⟨[], c.rest, rfl, .nil, rfl, gapPiece_eq_unclosed_iff.mp hn⟩
  | case3 c n hn _ ih =>
    obtain ⟨gap, behind, hd, hg, hp, ho⟩ := ih h
    obtain ⟨piece, tail, hc, rfl, makes⟩ := exists_of_gapPiece hn
    have tail_eq : tail = gap ++ behind := by
      rw [← hd, advance, hc, List.drop_left]
    refine ⟨piece ++ gap, behind, ?_, makes gap _ tail_eq hg, ?_, ho⟩
    · rw [hc, tail_eq, List.append_assoc]
    · rw [hp, Position.advance_append, advance, hc, List.take_left]

end Cursor

end Token

end ClassGraph
