import ClassGraph.Proofs.Gap

/-! # The form of a token ends with its line

Several rules look past the token that they find: a keyword ends where its word
ends, a letter is a head only at the end of a word, and a segment of a name is
left to an arrow that goes on behind it. All of them are content with the end of
a line. So a token that is cut out of a text and put in front of a line end is
found again, with the same kind and the same length.
-/

namespace ClassGraph

open Text

namespace Text

variable {text behind after : Text}

theorem atWordEnd_of_atLineEnd (h : AtLineEnd after) : atWordEnd after = true := by
  rcases h with rfl | ⟨rest, rfl⟩ <;> rfl

/-- What is found in front of a line end and has no line feed lies within the line. -/
theorem exists_of_append_eq (h : AtLineEnd after) {word rest : Text}
    (hw : .scalar '\n' ∉ word) (he : text ++ after = word ++ rest) : ∃ t, text = word ++ t := by
  rcases List.append_eq_append_iff.mp he with ⟨l, hl, hr⟩ | ⟨l, hl, _⟩
  · cases l with
    | nil => exact ⟨[], by rw [List.append_nil, hl, List.append_nil]⟩
    | cons c l =>
      rcases h with rfl | ⟨r, rfl⟩
      · cases hr
      · obtain ⟨rfl, _⟩ := List.cons.inj hr
        exact absurd (hl ▸ List.mem_append_right _ List.mem_cons_self) hw
  · exact ⟨l, hl⟩

end Text

namespace Token

variable {text behind after : Text}

/-- A run that ends within a text ends there also if the line does. -/
theorem takeWhile_lineEnd {p : CodePoint → Bool} (hp : p '\n' = false) (ha : AtLineEnd after)
    (h : runLength p (text ++ behind) ≤ text.length) :
    (text ++ after).takeWhile p = (text ++ behind).takeWhile p := by
  unfold runLength at h
  rw [List.takeWhile_append] at h ⊢
  rw [List.takeWhile_append]
  split
  · rename_i whole
    rw [if_pos whole, List.length_append] at h
    have none : behind.takeWhile p = [] := List.length_eq_zero_iff.mp (by omega)
    rw [none]
    rcases ha with rfl | ⟨rest, rfl⟩
    · rfl
    · rw [List.takeWhile_cons, hp]; rfl
  · rfl

theorem runLength_lineEnd {p : CodePoint → Bool} (behind : Text) (hp : p '\n' = false)
    (ha : AtLineEnd after) (h : runLength p (text ++ behind) ≤ text.length) :
    runLength p (text ++ after) = runLength p (text ++ behind) :=
  congrArg List.length (takeWhile_lineEnd hp ha h)

/-! ## Arrows -/

theorem shaftLength_lineEnd (behind : Text) (ha : AtLineEnd after)
    (h : shaftLength (text ++ behind) ≤ text.length) :
    shaftLength (text ++ after) = shaftLength (text ++ behind) :=
  runLength_lineEnd behind (by decide) ha h

theorem isShaft_iff {s : CodePoint} : isShaft s = true ↔ s = '-' ∨ s = '.' := by
  unfold isShaft
  rw [Bool.or_eq_true, beq_iff_eq, beq_iff_eq]

theorem shaftLength_pos {s : CodePoint} (rest : Text) (h : isShaft s = true) :
    0 < shaftLength (s :: rest) := by
  unfold shaftLength runLength
  rw [List.takeWhile_cons, if_pos h]
  exact Nat.succ_pos _

theorem exists_of_shaftLength {cs : Text} (h : shaftLength cs ≠ 0) :
    ∃ s rest, cs = s :: rest ∧ isShaft s = true := by
  cases cs with
  | nil => exact absurd rfl h
  | cons s rest =>
    refine ⟨s, rest, rfl, ?_⟩
    by_contra hs
    unfold shaftLength runLength at h
    rw [List.takeWhile_cons, if_neg hs] at h
    exact h rfl

/-- No two direction words begin with the same letter. -/
theorem stripDirection?_append {word : Text} (hw : word ∈ Arrow.directions) (rest : Text) :
    Arrow.stripDirection? (word ++ rest) = some rest := by
  simp only [Arrow.directions, List.mem_cons, List.not_mem_nil, or_false] at hw
  rcases hw with rfl | rfl | rfl | rfl <;> rfl

theorem directionLength_append {word : Text} (hw : word ∈ Arrow.directions) {s : CodePoint}
    (hs : isShaft s = true) (rest : Text) :
    directionLength (word ++ [s] ++ rest) = word.length := by
  have pos := shaftLength_pos rest hs
  unfold directionLength
  rw [List.append_assoc, List.singleton_append, stripDirection?_append hw]
  simp only
  rw [if_neg (Nat.ne_of_gt pos), List.length_append, Nat.add_sub_cancel]

theorem exists_of_directionLength {cs : Text} (h : directionLength cs ≠ 0) :
    ∃ word ∈ Arrow.directions, ∃ s rest, cs = word ++ [s] ++ rest ∧ isShaft s = true := by
  unfold directionLength at h
  split at h
  · rename_i tail ht
    obtain ⟨word, hw, hs⟩ := List.exists_of_findSome?_eq_some ht
    rw [stripWord?_eq_some_iff] at hs
    split at h
    · exact absurd rfl h
    · rename_i shaft
      obtain ⟨s, rest, rfl, hs'⟩ := exists_of_shaftLength shaft
      exact ⟨word, hw, s, rest, by rw [hs, List.append_assoc]; rfl, hs'⟩
  · exact absurd rfl h

theorem newline_not_mem_direction {word : Text} (hw : word ∈ Arrow.directions) {s : CodePoint}
    (hs : isShaft s = true) : .scalar '\n' ∉ word ++ [s] := by
  intro h
  rcases List.mem_append.mp h with h | h
  · simp only [Arrow.directions, List.mem_cons, List.not_mem_nil, or_false] at hw
    rcases hw with rfl | rfl | rfl | rfl <;> exact absurd h (by decide)
  · rw [← List.mem_singleton.mp h] at hs
    exact absurd hs (by decide)

/-- A direction word counts where the line of an arrow follows it. A line end
takes no part in that. -/
theorem directionLength_lineEnd (ha : AtLineEnd after)
    (h : directionLength (text ++ behind) ≠ 0 → directionLength (text ++ behind) < text.length) :
    directionLength (text ++ after) = directionLength (text ++ behind) := by
  have inside {word t : Text} {s : CodePoint} (hw : word ∈ Arrow.directions)
      (hs : isShaft s = true) (ht : text = word ++ [s] ++ t) :
      directionLength (text ++ after) = directionLength (text ++ behind) := by
    rw [ht, List.append_assoc _ t, List.append_assoc _ t, directionLength_append hw hs,
      directionLength_append hw hs]
  by_cases h₁ : directionLength (text ++ after) = 0
  · by_cases h₂ : directionLength (text ++ behind) = 0
    · rw [h₁, h₂]
    · obtain ⟨word, hw, s, rest, he, hs⟩ := exists_of_directionLength h₂
      have h := h h₂
      rw [he, directionLength_append hw hs] at h
      have shorter : (word ++ [s]).length ≤ text.length := by
        rw [List.length_append]; exact h
      obtain ⟨t, ht⟩ := List.prefix_of_prefix_length_le ⟨rest, he.symm⟩ ⟨behind, rfl⟩ shorter
      exact inside hw hs ht.symm
  · obtain ⟨word, hw, s, rest, he, hs⟩ := exists_of_directionLength h₁
    obtain ⟨t, ht⟩ := exists_of_append_eq ha (newline_not_mem_direction hw hs) he
    exact inside hw hs ht

theorem turnLength_eq (cs : Text) : turnLength cs = if directionLength cs = 0 then 0
    else directionLength cs + shaftLength (cs.drop (directionLength cs)) := by
  unfold turnLength
  split
  · rename_i h; rw [if_pos h]
  · rename_i h; rw [if_neg h]

/-- Behind a direction word there is a line. -/
theorem shaftLength_drop_directionLength {cs : Text} (h : directionLength cs ≠ 0) :
    0 < shaftLength (cs.drop (directionLength cs)) := by
  obtain ⟨word, hw, s, rest, rfl, hs⟩ := exists_of_directionLength h
  rw [directionLength_append hw hs, List.append_assoc, List.drop_left]
  exact shaftLength_pos _ hs

theorem turnLength_lineEnd (behind : Text) (ha : AtLineEnd after)
    (h : turnLength (text ++ behind) ≤ text.length) :
    turnLength (text ++ after) = turnLength (text ++ behind) := by
  rw [turnLength_eq, turnLength_eq]
  rw [turnLength_eq] at h
  by_cases hd : directionLength (text ++ behind) = 0
  · rw [directionLength_lineEnd ha (absurd hd), hd, if_pos rfl, if_pos rfl]
  · rw [if_neg hd] at h ⊢
    have line := shaftLength_drop_directionLength hd
    have fits : directionLength (text ++ behind) ≤ text.length := by omega
    have direction : directionLength (text ++ after) = directionLength (text ++ behind) :=
      directionLength_lineEnd ha fun _ => by omega
    rw [direction, if_neg hd]
    rw [List.drop_append_of_le_length fits] at h ⊢
    rw [List.drop_append_of_le_length fits, shaftLength_lineEnd behind ha]
    rw [List.length_drop]
    omega

/-- Whether there is a head on the left shows in two characters. -/
theorem leftHeadLength_cons_cons (a b : CodePoint) (cs : Text) :
    leftHeadLength (a :: b :: cs) =
      if a = '<' then if b = '|' then 2 else 1
      else if (a = 'o' ∨ a = '*') ∧ isShaft b = true then 1 else 0 := by
  by_cases angle : a = '<'
  · subst angle
    by_cases bar : b = '|'
    · subst bar; rfl
    · simp [leftHeadLength, bar]
  · by_cases letter : a = 'o'
    · subst letter; simp [leftHeadLength]
    · by_cases star : a = '*'
      · subst star; simp [leftHeadLength]
      · simp [leftHeadLength, angle, letter, star]

theorem leftHeadLength_lineEnd (behind : Text) (h : 2 ≤ text.length) :
    leftHeadLength (text ++ after) = leftHeadLength (text ++ behind) := by
  obtain ⟨a, b, t, rfl⟩ : ∃ a b t, text = a :: b :: t := by
    match text, h with
    | a :: b :: t, _ => exact ⟨a, b, t, rfl⟩
  simp only [List.cons_append, leftHeadLength_cons_cons]

theorem leftArrowRule_eq_some_iff {cs : Text} {n : Nat} : leftArrowRule cs = some n ↔
    let head := leftHeadLength cs
    let direction := directionLength (cs.drop head)
    let shaft := shaftLength (cs.drop (head + direction))
    let turn := turnLength (cs.drop (head + direction + shaft))
    head ≠ 0 ∧ shaft ≠ 0 ∧ head + direction + shaft + turn = n := by
  unfold leftArrowRule
  split
  · rename_i none; simp [none]
  · rename_i some; simp [show leftHeadLength cs ≠ 0 from some]

theorem leftArrowRule_lineEnd (ha : AtLineEnd after)
    (h : leftArrowRule (text ++ behind) = some text.length) :
    leftArrowRule (text ++ after) = some text.length := by
  simp only [leftArrowRule_eq_some_iff] at h ⊢
  obtain ⟨head, shaft, whole⟩ := h
  rw [leftHeadLength_lineEnd behind (by omega)]
  generalize leftHeadLength (text ++ behind) = m at *
  rw [List.drop_append_of_le_length (show m ≤ text.length by omega)] at *
  have direction : directionLength (text.drop m ++ after) =
      directionLength (text.drop m ++ behind) :=
    directionLength_lineEnd ha fun _ => by rw [List.length_drop]; omega
  rw [direction]
  generalize directionLength (text.drop m ++ behind) = d at *
  rw [List.drop_append_of_le_length (show m + d ≤ text.length by omega)] at *
  have line : shaftLength (text.drop (m + d) ++ after) =
      shaftLength (text.drop (m + d) ++ behind) :=
    shaftLength_lineEnd behind ha (by rw [List.length_drop]; omega)
  rw [line]
  generalize shaftLength (text.drop (m + d) ++ behind) = s at *
  rw [List.drop_append_of_le_length (show m + d + s ≤ text.length by omega)] at *
  rw [turnLength_lineEnd behind ha (by rw [List.length_drop]; omega)]
  exact ⟨head, shaft, whole⟩

theorem rightHeadLength_cons (a : CodePoint) (rest : Text) :
    rightHeadLength (a :: rest) =
      if a = '|' ∧ rest.head? = some (.scalar '>') then 2
      else if a = '>' ∨ a = '*' ∨ a = 'o' ∧ atWordEnd rest = true then 1 else 0 := by
  by_cases bar : a = '|'
  · subst bar
    cases rest with
    | nil => rfl
    | cons b rest =>
      by_cases angle : b = '>'
      · subst angle; rfl
      · simp [rightHeadLength, angle]
  · by_cases angle : a = '>'
    · subst angle; simp [rightHeadLength]
    · by_cases letter : a = 'o'
      · subst letter; simp [rightHeadLength]
      · by_cases star : a = '*'
        · subst star; simp [rightHeadLength]
        · simp [rightHeadLength, bar, angle, letter, star]

/-- A head on the right that ends with the text is found in front of a line end. -/
theorem rightHeadLength_lineEnd (behind : Text) (ha : AtLineEnd after)
    (h : rightHeadLength (text ++ behind) = text.length) :
    rightHeadLength (text ++ after) = text.length := by
  cases text with
  | nil => rcases ha with rfl | ⟨rest, rfl⟩ <;> rfl
  | cons a t =>
    rw [List.cons_append, rightHeadLength_cons] at h ⊢
    cases t with
    | nil =>
      have stop : after.head? ≠ some (.scalar '>') := by
        rcases ha with rfl | ⟨rest, rfl⟩ <;> simp
      simp only [List.nil_append, stop, atWordEnd_of_atLineEnd ha, and_false, if_false,
        and_true] at h ⊢
      split at h
      · cases h
      · split at h
        · rename_i head
          rw [if_pos (head.imp_right (Or.imp_right And.left))]; rfl
        · cases h
    | cons b t =>
      by_cases bar : a = '|' ∧ b = '>'
      · rw [if_pos ⟨bar.1, congrArg some bar.2⟩] at h ⊢; exact h
      · rw [if_neg fun both => bar (both.imp_right Option.some.inj)] at h
        have two : 2 ≤ (a :: b :: t).length := Nat.le_add_left _ _
        rw [← h] at two
        split_ifs at two <;> omega

theorem rightArrowRule_eq_some_iff {cs : Text} {n : Nat} : rightArrowRule cs = some n ↔
    let shaft := shaftLength cs
    let turn := turnLength (cs.drop shaft)
    shaft ≠ 0 ∧ shaft + turn + rightHeadLength (cs.drop (shaft + turn)) = n := by
  unfold rightArrowRule
  split
  · rename_i none; simp [none]
  · rename_i some; simp [show shaftLength cs ≠ 0 from some]

theorem rightArrowRule_lineEnd (ha : AtLineEnd after)
    (h : rightArrowRule (text ++ behind) = some text.length) :
    rightArrowRule (text ++ after) = some text.length := by
  simp only [rightArrowRule_eq_some_iff] at h ⊢
  obtain ⟨shaft, whole⟩ := h
  rw [shaftLength_lineEnd behind ha (by omega)]
  generalize shaftLength (text ++ behind) = s at *
  rw [List.drop_append_of_le_length (show s ≤ text.length by omega)] at *
  rw [turnLength_lineEnd behind ha (by rw [List.length_drop]; omega)]
  generalize turnLength (text.drop s ++ behind) = t at *
  rw [List.drop_append_of_le_length (show s + t ≤ text.length by omega)] at *
  have head : rightHeadLength (text.drop (s + t) ++ after) = (text.drop (s + t)).length :=
    rightHeadLength_lineEnd behind ha (by rw [List.length_drop]; omega)
  rw [head, List.length_drop]
  exact ⟨shaft, by omega⟩

/-! ## Names -/

theorem drop_runLength (p : CodePoint → Bool) (cs : Text) :
    cs.drop (runLength p cs) = cs.dropWhile p := by
  have cut : (cs.takeWhile p ++ cs.dropWhile p).drop (runLength p cs) = cs.dropWhile p :=
    List.drop_left
  rwa [List.takeWhile_append_dropWhile] at cut

/-- A run ends at the first character that does not fit. -/
theorem runLength_append_cons {p : CodePoint → Bool} {front rest : Text} {s : CodePoint}
    (hf : ∀ c ∈ front, p c = true) (hs : p s = false) :
    runLength p (front ++ s :: rest) = front.length := by
  rw [runLength, List.takeWhile_append_of_pos hf,
    List.takeWhile_cons_of_neg (Bool.eq_false_iff.mp hs), List.append_nil]

theorem quotedRule_eq_some_iff {cs : Text} {n : Nat} : quotedRule cs = some n ↔
    ∃ inside rest, cs = ("\"" : Text) ++ inside ++ ("\"" : Text) ++ rest ∧ n = inside.length + 2 ∧
      .scalar '"' ∉ inside ∧ .scalar '\n' ∉ inside := by
  constructor
  · intro h
    unfold quotedRule at h
    split at h
    · rename_i rest
      simp only [drop_runLength] at h
      split at h
      · rename_i tail ht
        have cut := List.takeWhile_append_dropWhile
          (p := fun c : CodePoint => c != '"' && c != '\n') (l := rest)
        refine ⟨_, tail, ?_, (Option.some.inj h).symm, fun hm => ?_, fun hm => ?_⟩
        · rw [List.append_assoc _ _ tail, List.append_assoc]
          exact congrArg (List.cons _) (cut.symm.trans (by rw [ht]; rfl))
        · exact absurd (List.mem_takeWhile_imp hm) (by decide)
        · exact absurd (List.mem_takeWhile_imp hm) (by decide)
      · cases h
    · cases h
  · intro h
    obtain ⟨inside, rest, rfl, rfl, quote, line⟩ := h
    have run : runLength (fun c : CodePoint => c != '"' && c != '\n')
        (inside ++ .scalar '"' :: rest) = inside.length := by
      refine runLength_append_cons (fun c hc => ?_) (by decide)
      rw [Bool.and_eq_true, bne_iff_ne, bne_iff_ne]
      exact ⟨fun he => quote (he ▸ hc), fun he => line (he ▸ hc)⟩
    rw [List.append_assoc _ _ rest, List.append_assoc]
    show quotedRule (.scalar '"' :: (inside ++ .scalar '"' :: rest)) = _
    unfold quotedRule
    simp only [run, List.drop_left]

theorem exists_of_quotedRule (h : quotedRule (text ++ behind) = some text.length) :
    ∃ inside, text = ("\"" : Text) ++ inside ++ ("\"" : Text) ∧
      .scalar '"' ∉ inside ∧ .scalar '\n' ∉ inside := by
  obtain ⟨inside, rest, he, hl, hi⟩ := quotedRule_eq_some_iff.mp h
  refine ⟨inside, (List.append_inj he ?_).1, hi⟩
  rw [hl, List.length_append, List.length_append, Nat.add_comm _ inside.length]; rfl

theorem quotedRule_lineEnd (after : Text) (h : quotedRule (text ++ behind) = some text.length) :
    quotedRule (text ++ after) = some text.length := by
  obtain ⟨inside, rfl, hi⟩ := exists_of_quotedRule h
  refine quotedRule_eq_some_iff.mpr ⟨inside, after, rfl, ?_, hi⟩
  rw [List.length_append, List.length_append, Nat.add_comm _ inside.length]; rfl

theorem runLength_cons_of_pos {p : CodePoint → Bool} {c : CodePoint} {cs : Text} (h : p c = true) :
    runLength p (c :: cs) = 1 + runLength p cs := by
  rw [runLength, List.takeWhile_cons_of_pos h, List.length_cons, Nat.add_comm]; rfl

theorem runLength_eq_zero_iff {p : CodePoint → Bool} {cs : Text} :
    runLength p cs = 0 ↔ ∀ c ∈ cs.head?, p c = false := by
  cases cs with
  | nil => simp [runLength]
  | cons c cs =>
    by_cases h : p c = true
    · rw [runLength_cons_of_pos h]; simp [h]
    · rw [runLength, List.takeWhile_cons_of_neg h]; simpa using h

theorem atWordEnd_iff {cs : Text} : atWordEnd cs = true ↔ runLength isWord cs = 0 := by
  rw [runLength_eq_zero_iff]
  cases cs <;> simp [atWordEnd]

theorem isWord_eq_false_of_isShaft {s : CodePoint} (h : isShaft s = true) : isWord s = false := by
  rcases isShaft_iff.mp h with rfl | rfl <;> rfl

theorem isWord_of_mem_direction {word : Text} (hw : word ∈ Arrow.directions) :
    ∀ c ∈ word, isWord c = true := by
  revert word
  decide

theorem ne_nil_of_mem_direction {word : Text} (hw : word ∈ Arrow.directions) : word ≠ [] := by
  revert word
  decide

/-- What follows a direction word and a line decides whether an arrow begins
there. -/
theorem beginsTurnedArrow_append {word line : Text} (hw : word ∈ Arrow.directions)
    (nonempty : line ≠ []) (drawn : ∀ s ∈ line, isShaft s = true) {a : CodePoint}
    (ha : isShaft a = false) (rest : Text) :
    beginsTurnedArrow (word ++ line ++ a :: rest) =
      (rightHeadLength (a :: rest) != 0 || isBlank a) := by
  have length : word.length ≠ 0 := mt List.length_eq_zero_iff.mp (ne_nil_of_mem_direction hw)
  have run : shaftLength (line ++ a :: rest) = line.length := runLength_append_cons drawn ha
  have front : (word ++ line ++ a :: rest).drop word.length = line ++ a :: rest := by
    rw [List.append_assoc]; exact List.drop_left
  have direction : directionLength (word ++ line ++ a :: rest) = word.length := by
    obtain ⟨s, more, rfl⟩ := List.exists_cons_of_ne_nil nonempty
    rw [← directionLength_append hw (drawn s List.mem_cons_self) (more ++ a :: rest)]
    simp only [List.append_assoc, List.cons_append, List.nil_append]
  unfold beginsTurnedArrow
  rw [direction]
  split
  · rename_i zero; exact absurd zero length
  · rw [front, run, ← List.drop_drop, front, List.drop_left]

theorem rightHeadLength_of_isWord {a : CodePoint} (ha : isWord a = true) (rest : Text) :
    rightHeadLength (a :: rest) = if a = 'o' ∧ atWordEnd rest = true then 1 else 0 := by
  have differs {c : CodePoint} (hc : isWord c = false) : a ≠ c := by
    rintro rfl
    exact absurd ha (Bool.eq_false_iff.mp hc)
  rw [rightHeadLength_cons, if_neg fun h => differs (c := '|') rfl h.1]
  simp only [differs (c := '>') rfl, differs (c := '*') rfl, false_or]

theorem segmentsLength_cons (c : CodePoint) (rest : Text) : segmentsLength (c :: rest) =
    if (c = '.' ∨ c = '/') ∧ beginsTurnedArrow rest = false ∧ runLength isWord rest ≠ 0 then
      1 + runLength isWord rest + segmentsLength (rest.drop (runLength isWord rest))
    else 0 := by
  rw [segmentsLength]
  by_cases opens : (c = '.' ∨ c = '/') ∧ beginsTurnedArrow rest = false
  · have opens' : ((c == '.' || c == '/') && !beginsTurnedArrow rest) = true := by
      simpa using opens
    rw [if_pos opens']
    split
    · rename_i empty
      rw [if_neg fun h => h.2.2 empty]
    · rename_i n run
      have some : runLength isWord rest ≠ 0 := by rw [run]; exact Nat.succ_ne_zero n
      rw [if_pos ⟨opens.1, opens.2, some⟩, run, Nat.succ_eq_add_one]
      omega
  · have opens' : ¬ ((c == '.' || c == '/') && !beginsTurnedArrow rest) = true := by
      simpa using opens
    rw [if_neg opens', if_neg fun h => opens ⟨h.1, h.2.1⟩]

/-- An arrow with a direction word that is found behind a segment, where the line
ends, is found where something else follows. -/
theorem beginsTurnedArrow_of_lineEnd (behind : Text) (ha : AtLineEnd after)
    (h : beginsTurnedArrow (text ++ after) = true)
    (hl : runLength isWord (text ++ behind) +
      segmentsLength ((text ++ behind).drop (runLength isWord (text ++ behind))) = text.length) :
    beginsTurnedArrow (text ++ behind) = true := by
  have turned : directionLength (text ++ after) ≠ 0 := by
    intro zero
    unfold beginsTurnedArrow at h
    rw [zero] at h
    cases h
  obtain ⟨word, hw, s, rest, he, hs⟩ := exists_of_directionLength turned
  obtain ⟨t, rfl⟩ := exists_of_append_eq ha (newline_not_mem_direction hw hs) he
  have front : word ++ [s] ++ t ++ behind = word ++ s :: (t ++ behind) := by
    rw [List.append_assoc, List.append_assoc]; rfl
  -- the word is a segment of its own, and the line behind it begins the next one
  rw [front, runLength_append_cons (isWord_of_mem_direction hw) (isWord_eq_false_of_isShaft hs),
    List.drop_left, segmentsLength_cons, List.length_append, List.length_append,
    List.length_singleton] at hl
  split_ifs at hl with next
  · obtain ⟨-, -, run⟩ := next
    cases t with
    | nil =>
      rw [List.nil_append] at hl run
      rw [List.length_nil] at hl
      omega
    | cons a t =>
      rw [List.cons_append] at hl run
      have letter : isWord a = true := by
        by_contra hn
        rw [runLength, List.takeWhile_cons_of_neg hn] at run
        exact run rfl
      have noShaft : isShaft a = false := by
        by_contra hn
        rw [isWord_eq_false_of_isShaft (Bool.not_eq_false _ ▸ hn)] at letter
        cases letter
      have ends (hw : atWordEnd (t ++ after) = true) : atWordEnd (t ++ behind) = true := by
        cases t with
        | nil =>
          rw [runLength_cons_of_pos letter, List.length_singleton] at hl
          exact atWordEnd_iff.mpr (by rw [List.nil_append] at hl ⊢; omega)
        | cons b t => exact hw
      rw [List.append_assoc _ (a :: t), List.cons_append,
        beginsTurnedArrow_append hw (List.cons_ne_nil s []) (List.forall_mem_singleton.mpr hs)
          noShaft,
        rightHeadLength_of_isWord letter] at h ⊢
      rw [Bool.or_eq_true] at h ⊢
      refine h.imp_left fun head => ?_
      split at head
      · rename_i letter
        rw [if_pos ⟨letter.1, ends letter.2⟩]; rfl
      · cases head
  · omega

theorem segmentsLength_of_atLineEnd (ha : AtLineEnd after) : segmentsLength after = 0 := by
  rcases ha with rfl | ⟨rest, rfl⟩
  · rw [segmentsLength]
  · rw [segmentsLength_cons, if_neg (by simp)]

/-- Segments that end with a text are found where the line ends: the words are
the same, and no more of them are left to arrows. -/
theorem segmentsLength_lineEnd (behind : Text) (ha : AtLineEnd after)
    (h : segmentsLength (text ++ behind) = text.length) :
    segmentsLength (text ++ after) = text.length := by
  induction hn : text.length using Nat.strong_induction_on generalizing text with
  | _ n ih =>
    subst hn
    cases text with
    | nil => exact segmentsLength_of_atLineEnd ha
    | cons c t =>
      rw [List.cons_append, segmentsLength_cons] at h ⊢
      split_ifs at h with next
      · rw [List.length_cons] at h
        have run : runLength isWord (t ++ after) = runLength isWord (t ++ behind) :=
          runLength_lineEnd behind rfl ha (by omega)
        have turned : beginsTurnedArrow (t ++ after) = false := by
          by_contra hb
          have := beginsTurnedArrow_of_lineEnd behind ha (Bool.not_eq_false _ ▸ hb)
            (by omega)
          rw [next.2.1] at this
          cases this
        rw [if_pos ⟨next.1, turned, run ▸ next.2.2⟩, run]
        have fits : runLength isWord (t ++ behind) ≤ t.length := by omega
        rw [List.drop_append_of_le_length fits] at h ⊢
        have others := ih (t.drop (runLength isWord (t ++ behind))).length
          (by rw [List.length_drop, List.length_cons]; omega) (by rw [List.length_drop]; omega) rfl
        rw [others, List.length_drop, List.length_cons]
        omega

theorem barewordRule_cons (c : CodePoint) (rest : Text) : barewordRule (c :: rest) =
    if isWordStart c then some (1 + runLength isWord rest +
      segmentsLength (rest.drop (runLength isWord rest))) else none := rfl

theorem barewordRule_lineEnd (ha : AtLineEnd after)
    (h : barewordRule (text ++ behind) = some text.length) :
    barewordRule (text ++ after) = some text.length := by
  cases text with
  | nil => exact absurd (fits_barewordRule _ _ h).1 (Nat.lt_irrefl 0)
  | cons c t =>
    rw [List.cons_append, barewordRule_cons] at h ⊢
    split at h
    · rename_i starts
      rw [Option.some.injEq, List.length_cons] at h
      rw [if_pos starts, Option.some.injEq, List.length_cons]
      rw [runLength_lineEnd behind rfl ha (by omega)]
      have fits : runLength isWord (t ++ behind) ≤ t.length := by omega
      rw [List.drop_append_of_le_length fits] at h ⊢
      have segments : segmentsLength (t.drop (runLength isWord (t ++ behind)) ++ after) = _ :=
        segmentsLength_lineEnd behind ha (by rw [List.length_drop]; omega)
      rw [segments, List.length_drop]
      omega
    · cases h

end Token

end ClassGraph
