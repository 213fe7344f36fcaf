import ClassGraph.Proofs.Spelling

/-! # A text goes on behind a line end

The rules look past the token that they find, some of them by several words, but
what they look for never reaches over a line end: a text with its end and a text
with a line feed in its place look the same to each of them. So the forms that a
whole text spells stay when another text follows on the next line, and the forms
of that text come behind them.
-/

namespace ClassGraph

open Text

namespace Text

variable {after : Text}

theorem stripWord?_extend (ha : AtLineEnd after) {word : Text} (hw : .scalar '\n' ∉ word)
    (cs : Text) : stripWord? word (cs ++ after) = (stripWord? word cs).map (· ++ after) := by
  induction word generalizing cs with
  | nil => rfl
  | cons w word ih =>
    obtain ⟨line, hw⟩ := not_or.mp (mt List.mem_cons.mpr hw)
    cases cs with
    | nil =>
      rcases ha with rfl | ⟨rest, rfl⟩
      · rfl
      · exact if_neg (Ne.symm line)
    | cons c cs =>
      rw [List.cons_append, stripWord?, stripWord?]
      split
      · exact ih hw cs
      · rfl

theorem atWordEnd_extend (ha : AtLineEnd after) (cs : Text) :
    atWordEnd (cs ++ after) = atWordEnd cs := by
  cases cs with
  | nil => exact atWordEnd_of_atLineEnd ha
  | cons c cs => rfl

end Text

namespace Token

variable {after : Text}

theorem runLength_extend (ha : AtLineEnd after) {p : CodePoint → Bool} (hp : p '\n' = false)
    (cs : Text) : runLength p (cs ++ after) = runLength p cs := by
  have whole : runLength p (cs ++ []) ≤ cs.length := by
    rw [List.append_nil]
    exact runLength_le p cs
  rw [runLength_lineEnd [] hp ha whole, List.append_nil]

/-! ## Words -/

theorem mark_extend (ha : AtLineEnd after) {word : Text} (hw : .scalar '\n' ∉ word) (cs : Text) :
    mark word (cs ++ after) = mark word cs := by
  unfold mark
  rw [stripWord?_extend ha hw, Option.map_map]
  rfl

theorem keyword_extend (ha : AtLineEnd after) {word : Text} (hw : .scalar '\n' ∉ word)
    (cs : Text) : keyword word (cs ++ after) = keyword word cs := by
  unfold keyword
  rw [stripWord?_extend ha hw]
  cases stripWord? word cs with
  | none => rfl
  | some rest => simp only [Option.map_some, atWordEnd_extend ha]

theorem orElse_extend {first second : Rule} {cs : Text} (h₁ : first (cs ++ after) = first cs)
    (h₂ : second (cs ++ after) = second cs) :
    orElse first second (cs ++ after) = orElse first second cs := by
  unfold orElse
  rw [h₁, h₂]

theorem startRule_extend (ha : AtLineEnd after) (cs : Text) :
    startRule (cs ++ after) = startRule cs := by
  unfold startRule
  rw [keyword_extend ha (by decide)]
  cases hk : keyword "@startuml" cs with
  | none => rfl
  | some n =>
    have fits := (fits_keyword (by decide) cs n hk).2
    simp only [Option.map_some, lineLength]
    rw [List.drop_append_of_le_length fits, runLength_extend ha (by decide)]

theorem abstractRule_extend (ha : AtLineEnd after) (cs : Text) :
    abstractRule (cs ++ after) = abstractRule cs := by
  unfold abstractRule
  rw [stripWord?_extend ha (by decide)]
  cases stripWord? ("abstract" : Text) cs with
  | none => rfl
  | some rest =>
    have blanks := runLength_le (fun c : CodePoint => c == ' ' || c == '\t') rest
    simp only [Option.map_some]
    rw [runLength_extend ha (by decide), List.drop_append_of_le_length blanks,
      keyword_extend ha (by decide), atWordEnd_extend ha]

/-! ## Arrows -/

theorem shaftLength_extend (ha : AtLineEnd after) (cs : Text) :
    shaftLength (cs ++ after) = shaftLength cs := runLength_extend ha (by decide) cs

theorem directionLength_extend (ha : AtLineEnd after) (cs : Text) :
    directionLength (cs ++ after) = directionLength cs := by
  have inside : directionLength (cs ++ []) ≠ 0 → directionLength (cs ++ []) < cs.length := by
    rw [List.append_nil]
    intro h
    obtain ⟨word, hw, s, rest, rfl, hs⟩ := exists_of_directionLength h
    rw [directionLength_append hw hs, List.length_append, List.length_append,
      List.length_singleton]
    omega
  rw [directionLength_lineEnd ha inside, List.append_nil]

theorem turnLength_extend (ha : AtLineEnd after) (cs : Text) :
    turnLength (cs ++ after) = turnLength cs := by
  have fits : turnLength (cs ++ []) ≤ cs.length := by
    rw [List.append_nil]
    exact turnLength_le cs
  rw [turnLength_lineEnd [] ha fits, List.append_nil]

theorem leftHeadLength_extend (ha : AtLineEnd after) (cs : Text) :
    leftHeadLength (cs ++ after) = leftHeadLength cs := by
  match cs with
  | [] => rcases ha with rfl | ⟨rest, rfl⟩ <;> rfl
  | [c] =>
    rcases ha with rfl | ⟨rest, rfl⟩
    · rfl
    · rw [List.singleton_append, leftHeadLength_cons_cons]
      by_cases angle : c = '<'
      · subst angle
        rfl
      · simp [leftHeadLength, angle, isShaft]
  | a :: b :: cs => rw [leftHeadLength_lineEnd [] (Nat.le_add_left 2 _), List.append_nil]

theorem rightHeadLength_extend (ha : AtLineEnd after) (cs : Text) :
    rightHeadLength (cs ++ after) = rightHeadLength cs := by
  cases cs with
  | nil => rcases ha with rfl | ⟨rest, rfl⟩ <;> rfl
  | cons c cs =>
    have next : (cs ++ after).head? = some (.scalar '>') ↔ cs.head? = some (.scalar '>') := by
      cases cs with
      | nil => rcases ha with rfl | ⟨rest, rfl⟩ <;> simp
      | cons d cs => rfl
    rw [List.cons_append, rightHeadLength_cons, rightHeadLength_cons, atWordEnd_extend ha]
    simp only [next]

theorem leftArrowRule_extend (ha : AtLineEnd after) (cs : Text) :
    leftArrowRule (cs ++ after) = leftArrowRule cs := by
  apply Option.ext
  intro n
  have head := leftHeadLength_le cs
  have direction := directionLength_le (cs.drop (leftHeadLength cs))
  have line := shaftLength_drop_le cs
    (leftHeadLength cs + directionLength (cs.drop (leftHeadLength cs)))
  rw [List.length_drop] at direction
  rw [leftArrowRule_eq_some_iff, leftArrowRule_eq_some_iff]
  simp only [leftHeadLength_extend ha]
  rw [List.drop_append_of_le_length head, directionLength_extend ha,
    List.drop_append_of_le_length (by omega), shaftLength_extend ha,
    List.drop_append_of_le_length (by omega), turnLength_extend ha]

theorem rightArrowRule_extend (ha : AtLineEnd after) (cs : Text) :
    rightArrowRule (cs ++ after) = rightArrowRule cs := by
  apply Option.ext
  intro n
  have line : shaftLength cs ≤ cs.length := runLength_le isShaft cs
  have turn := turnLength_le (cs.drop (shaftLength cs))
  rw [List.length_drop] at turn
  rw [rightArrowRule_eq_some_iff, rightArrowRule_eq_some_iff]
  simp only [shaftLength_extend ha]
  rw [List.drop_append_of_le_length line, turnLength_extend ha,
    List.drop_append_of_le_length (by omega), rightHeadLength_extend ha]

/-! ## Names -/

theorem quotedRule_extend (ha : AtLineEnd after) (cs : Text) :
    quotedRule (cs ++ after) = quotedRule cs := by
  apply Option.ext
  intro n
  rw [quotedRule_eq_some_iff, quotedRule_eq_some_iff]
  constructor
  · rintro ⟨inside, rest, he, hn, quote, line⟩
    have lines : .scalar '\n' ∉ ("\"" : Text) ++ inside ++ ("\"" : Text) := by
      simp only [List.mem_append, not_or]
      exact ⟨⟨by decide, line⟩, by decide⟩
    obtain ⟨t, rfl⟩ := exists_of_append_eq ha lines he
    exact ⟨inside, t, rfl, hn, quote, line⟩
  · rintro ⟨inside, rest, rfl, hn, marks⟩
    exact ⟨inside, rest ++ after, by rw [List.append_assoc], hn, marks⟩

theorem beginsTurnedArrow_extend (ha : AtLineEnd after) (cs : Text) :
    beginsTurnedArrow (cs ++ after) = beginsTurnedArrow cs := by
  have word := directionLength_le cs
  have line := shaftLength_drop_le cs (directionLength cs)
  unfold beginsTurnedArrow
  rw [directionLength_extend ha]
  generalize directionLength cs = n at *
  cases n with
  | zero => rfl
  | succ n =>
    simp only
    rw [List.drop_append_of_le_length word, shaftLength_extend ha,
      List.drop_append_of_le_length (by omega)]
    generalize cs.drop _ = behind
    cases behind with
    | nil =>
      rcases ha with rfl | ⟨rest, rfl⟩
      · rfl
      · simp [isBlank_newline]
    | cons c behind =>
      have head := rightHeadLength_extend ha (c :: behind)
      rw [List.cons_append] at head ⊢
      simp only [head]

theorem segmentsLength_extend (ha : AtLineEnd after) (cs : Text) :
    segmentsLength (cs ++ after) = segmentsLength cs := by
  induction hn : cs.length using Nat.strong_induction_on generalizing cs with
  | _ n ih =>
    subst hn
    cases cs with
    | nil => rw [List.nil_append, segmentsLength_of_atLineEnd ha, segmentsLength]
    | cons c cs =>
      have others := ih (cs.drop (runLength isWord cs)).length
        (by rw [List.length_drop, List.length_cons]; omega) _ rfl
      rw [List.cons_append, segmentsLength_cons, segmentsLength_cons, beginsTurnedArrow_extend ha,
        runLength_extend ha rfl, List.drop_append_of_le_length (runLength_le isWord cs), others]

theorem barewordRule_extend (ha : AtLineEnd after) (cs : Text) :
    barewordRule (cs ++ after) = barewordRule cs := by
  cases cs with
  | nil => rcases ha with rfl | ⟨rest, rfl⟩ <;> rfl
  | cons c cs =>
    rw [List.cons_append, barewordRule_cons, barewordRule_cons, runLength_extend ha rfl,
      List.drop_append_of_le_length (runLength_le isWord cs), segmentsLength_extend ha]

/-- No rule looks over a line end. -/
theorem recognize_extend (ha : AtLineEnd after) (cs : Text) :
    recognize (cs ++ after) = recognize cs := by
  have word {word : Text} (hw : .scalar '\n' ∉ word) := keyword_extend ha hw cs
  simp only [recognize, rules, List.findSome?_cons, List.findSome?_nil]
  rw [startRule_extend ha, word (by decide), abstractRule_extend ha, word (by decide),
    word (by decide), orElse_extend (word (by decide)) (word (by decide)), word (by decide),
    word (by decide), leftArrowRule_extend ha, rightArrowRule_extend ha,
    mark_extend ha (by decide), mark_extend ha (by decide),
    orElse_extend (quotedRule_extend ha cs) (barewordRule_extend ha cs)]

/-! ## Texts -/

theorem Gap.extend {gap behind : Text} (h : Gap gap behind) (ha : AtLineEnd after) :
    Gap gap (behind ++ after) := by
  induction h with
  | nil => exact .nil
  | blank blank _ ih => exact .blank blank ih
  | block inside _ ih => exact .block inside ih
  | @line body cs behind inside ends _ ih =>
    refine .line inside ?_ ih
    rw [← List.append_assoc]
    rcases ends with empty | ⟨rest, feed⟩
    · rwa [empty]
    · exact .inr ⟨rest ++ after, by rw [feed, List.cons_append]⟩

/-- The forms of a text that is read to its end, and behind them those of a text
that goes on with a line end. -/
theorem Spells.append {front forms : List Form} {source : Text}
    (h : Spells (front ++ [(.finish, [])]) source) (h' : Spells forms after)
    (ha : AtLineEnd after) : Spells (front ++ forms) (source ++ after) := by
  generalize hw : front ++ [(.finish, [])] = whole at h
  induction h generalizing front with
  | stop skipped =>
    obtain ⟨rfl, _⟩ := List.append_eq_singleton_iff.mp hw |>.resolve_right (by simp)
    exact h'.gap (skipped.extend ha)
  | @mark gap text rest _ recognized =>
    obtain ⟨rfl, he⟩ := List.append_eq_singleton_iff.mp hw |>.resolve_right (by simp)
    cases he
    exact absurd (recognize_fits recognized).1 (Nat.lt_irrefl 0)
  | @token gap text rest kind others skipped recognized continues rest_spells ih =>
    cases front with
    | nil =>
      cases hw
      exact absurd rfl continues
    | cons f front =>
      obtain ⟨rfl, hf⟩ := List.cons.inj hw
      rw [List.append_assoc, List.append_assoc]
      refine .token ?_ ?_ continues (ih hf)
      · rw [← List.append_assoc]
        exact skipped.extend ha
      · rw [← List.append_assoc, recognize_extend ha, recognized]

end Token

end ClassGraph
