import ClassGraph.Proofs.Recognition

/-! # Arrows and their mirror images

An arrow is a line, which may take a turn at a direction word, and a head. Its
mirror image has the head in front and the line the other way round; the word is
not spelled backwards. What an arrow states depends on its head and on the
character of the line next to the head, so the two state the same.
-/

namespace ClassGraph

namespace Arrow

open Text Token

inductive Head where
  | triangle
  | angle
  | circle
  | star
deriving DecidableEq, Repr

namespace Head

def right : Head → Text
  | triangle => "|>"
  | angle => ">"
  | circle => "o"
  | star => "*"

def left : Head → Text
  | triangle => "<|"
  | angle => "<"
  | circle => "o"
  | star => "*"

/-- What an arrow states, by the character of the line next to its head. -/
def family (next : CodePoint) : Head → Family
  | triangle => if next = '.' then .realization else .inheritance
  | angle => if next = '.' then .dependency else .association
  | circle => .aggregation
  | star => .composition

end Head

/-- A straight piece of the line of an arrow. -/
structure Stroke where
  text : Text
  nonempty : text ≠ []
  drawn : ∀ c ∈ text, isShaft c = true

def Stroke.reverse (stroke : Stroke) : Stroke where
  text := stroke.text.reverse
  nonempty := mt List.reverse_eq_nil_iff.mp stroke.nonempty
  drawn c hc := stroke.drawn c (List.mem_reverse.mp hc)

/-- A direction word and the stroke behind it. -/
structure Turn where
  word : Text
  mem : word ∈ directions
  stroke : Stroke

/-- The line of an arrow. -/
structure Shaft where
  stroke : Stroke
  turn : Option Turn

namespace Shaft

def text (shaft : Shaft) : Text :=
  shaft.stroke.text ++
    match shaft.turn with
    | none => []
    | some turn => turn.word ++ turn.stroke.text

/-- The strokes alone. -/
def strokes (shaft : Shaft) : Text :=
  shaft.stroke.text ++
    match shaft.turn with
    | none => []
    | some turn => turn.stroke.text

def reverse (shaft : Shaft) : Shaft :=
  match shaft.turn with
  | none => ⟨shaft.stroke.reverse, none⟩
  | some turn => ⟨turn.stroke.reverse, some ⟨turn.word, turn.mem, shaft.stroke.reverse⟩⟩

end Shaft

/-- An arrow with a head. -/
structure Headed where
  shaft : Shaft
  head : Head

/-- The arrow with its head on the right. -/
def Headed.right (arrow : Headed) : Text := arrow.shaft.text ++ arrow.head.right

/-- The mirror image, with its head on the left. -/
def Headed.left (arrow : Headed) : Text := arrow.head.left ++ arrow.shaft.reverse.text

/-! ## Direction words are dropped -/

/-- In a plain text no direction word begins. -/
def Plain (cs : Text) : Prop := ∀ c ∈ cs, ∀ word ∈ directions, word.head? ≠ some c

theorem stripDirection?_eq_none {c : CodePoint}
    (hc : ∀ word ∈ directions, word.head? ≠ some c) (rest : Text) :
    stripDirection? (c :: rest) = none := by
  rw [Option.eq_none_iff_forall_ne_some]
  intro tail ht
  obtain ⟨word, hw, hs⟩ := List.exists_of_findSome?_eq_some ht
  rw [stripWord?_eq_some_iff] at hs
  cases word with
  | nil => exact absurd rfl (ne_nil_of_mem_direction hw)
  | cons d word =>
    obtain ⟨rfl, _⟩ := List.cons.inj hs
    exact hc _ hw rfl

theorem normalize_nil : normalize [] = [] := by
  rw [normalize]
  split
  · rename_i h
    cases h
  · rfl

theorem normalize_append {front : Text} (hf : Plain front) (rest : Text) :
    normalize (front ++ rest) = front ++ normalize rest := by
  induction front with
  | nil => rfl
  | cons c front ih =>
    have kept := stripDirection?_eq_none (hf c List.mem_cons_self) (front ++ rest)
    rw [List.cons_append, normalize]
    split
    · rename_i h
      rw [kept] at h
      cases h
    · simp only
      rw [ih fun d hd => hf d (List.mem_cons_of_mem _ hd), List.cons_append]

theorem normalize_direction {word : Text} (hw : word ∈ directions) (rest : Text) :
    normalize (word ++ rest) = normalize rest := by
  rw [normalize]
  split
  · rename_i tail h
    rw [stripDirection?_append hw] at h
    cases h
    rfl
  · rename_i h
    rw [stripDirection?_append hw] at h
    cases h

theorem normalize_of_plain {front : Text} (hf : Plain front) : normalize front = front := by
  have whole := normalize_append hf []
  rwa [List.append_nil, normalize_nil, List.append_nil] at whole

theorem Stroke.plain (stroke : Stroke) : Plain stroke.text := by
  intro c hc
  rcases isShaft_iff.mp (stroke.drawn c hc) with rfl | rfl <;> decide

theorem Head.plain_right (head : Head) : Plain head.right := by
  unfold Plain
  cases head <;> decide

theorem Head.plain_left (head : Head) : Plain head.left := by
  unfold Plain
  cases head <;> decide

theorem normalize_shaft (shaft : Shaft) (rest : Text) :
    normalize (shaft.text ++ rest) = shaft.strokes ++ normalize rest := by
  obtain ⟨stroke, turn⟩ := shaft
  unfold Shaft.text Shaft.strokes
  rw [List.append_assoc, normalize_append stroke.plain, List.append_assoc]
  cases turn with
  | none => rfl
  | some turn =>
    rw [List.append_assoc, normalize_direction turn.mem, normalize_append turn.stroke.plain]

/-! ## What an arrow states -/

theorem Shaft.strokes_reverse (shaft : Shaft) : shaft.reverse.strokes = shaft.strokes.reverse := by
  obtain ⟨stroke, turn⟩ := shaft
  cases turn with
  | none => exact (List.append_nil _).trans (congrArg List.reverse (List.append_nil _).symm)
  | some turn => exact List.reverse_append.symm

theorem Shaft.isShaft_of_mem (shaft : Shaft) : ∀ c ∈ shaft.strokes, isShaft c = true := by
  obtain ⟨stroke, turn⟩ := shaft
  intro c hc
  cases turn with
  | none => exact stroke.drawn c ((List.mem_append.mp hc).resolve_right nofun)
  | some turn => exact (List.mem_append.mp hc).elim (stroke.drawn c) (turn.stroke.drawn c)

theorem Shaft.strokes_ne_nil (shaft : Shaft) : shaft.strokes ≠ [] := fun h =>
  shaft.stroke.nonempty (List.append_eq_nil_iff.mp h).1

/-- The character next to the head. -/
theorem Shaft.exists_next (shaft : Shaft) :
    ∃ front next, shaft.strokes = front ++ [next] ∧ isShaft next = true := by
  refine ⟨_, _, (List.dropLast_append_getLast shaft.strokes_ne_nil).symm, ?_⟩
  exact shaft.isShaft_of_mem _ (List.getLast_mem shaft.strokes_ne_nil)

theorem normalize_right (arrow : Headed) :
    normalize arrow.right = arrow.shaft.strokes ++ arrow.head.right := by
  rw [Headed.right, normalize_shaft, normalize_of_plain arrow.head.plain_right]

theorem normalize_left (arrow : Headed) :
    normalize arrow.left = arrow.head.left ++ arrow.shaft.strokes.reverse := by
  rw [Headed.left, normalize_append arrow.head.plain_left]
  have shaft := normalize_shaft arrow.shaft.reverse []
  rw [List.append_nil, normalize_nil, List.append_nil] at shaft
  rw [shaft, Shaft.strokes_reverse]

theorem Head.family_of_suffix {head : Head} {cs front : Text} {next : CodePoint}
    (h : normalize cs = front ++ [next] ++ head.right) (hn : isShaft next = true) :
    Arrow.family .right cs = head.family next := by
  have backward : (normalize cs).reverse = head.right.reverse ++ next :: front.reverse := by
    rw [h, List.reverse_append, List.reverse_append]
    rfl
  unfold Arrow.family List.isSuffixOf
  simp only [backward]
  rcases isShaft_iff.mp hn with rfl | rfl <;> cases head <;> rfl

theorem Head.family_of_prefix {head : Head} {cs behind : Text} {next : CodePoint}
    (h : normalize cs = head.left ++ next :: behind) (hn : isShaft next = true) :
    Arrow.family .left cs = head.family next := by
  unfold Arrow.family
  simp only [h]
  rcases isShaft_iff.mp hn with rfl | rfl <;> cases head <;> rfl

theorem family_right {arrow : Headed} {front : Text} {next : CodePoint}
    (h : arrow.shaft.strokes = front ++ [next]) (hn : isShaft next = true) :
    family .right arrow.right = arrow.head.family next :=
  Head.family_of_suffix (by rw [normalize_right, h]) hn

theorem family_left {arrow : Headed} {front : Text} {next : CodePoint}
    (h : arrow.shaft.strokes = front ++ [next]) (hn : isShaft next = true) :
    family .left arrow.left = arrow.head.family next := by
  have plain : normalize arrow.left = arrow.head.left ++ next :: front.reverse := by
    rw [normalize_left, h, List.reverse_append]
    rfl
  exact Head.family_of_prefix plain hn

/-- An arrow and its mirror image state the same. -/
theorem family_mirror (arrow : Headed) :
    family .right arrow.right = family .left arrow.left := by
  obtain ⟨front, next, he, hn⟩ := arrow.shaft.exists_next
  rw [family_right he hn, family_left he hn]

/-! ## How arrows are found -/

theorem runLength_append {p : CodePoint → Bool} {front rest : Text}
    (hf : ∀ c ∈ front, p c = true) (hr : ∀ c ∈ rest.head?, p c = false) :
    runLength p (front ++ rest) = front.length := by
  rw [runLength, List.takeWhile_append_of_pos hf, List.length_append,
    show (rest.takeWhile p).length = 0 from runLength_eq_zero_iff.mpr hr, Nat.add_zero]

theorem directionLength_turn (turn : Turn) (rest : Text) :
    directionLength (turn.word ++ turn.stroke.text ++ rest) = turn.word.length := by
  obtain ⟨s, more, hs⟩ := List.exists_cons_of_ne_nil turn.stroke.nonempty
  have drawn : isShaft s = true := turn.stroke.drawn s (hs ▸ List.mem_cons_self)
  have cut : turn.word ++ turn.stroke.text ++ rest = turn.word ++ [s] ++ (more ++ rest) := by
    rw [hs, List.append_assoc, List.append_assoc]
    rfl
  rw [cut, directionLength_append turn.mem drawn]

/-- What follows the line of an arrow: neither more of it nor a turn. -/
structure Stops (rest : Text) : Prop where
  stroke : ∀ c ∈ rest.head?, isShaft c = false
  turn : directionLength rest = 0

theorem Turn.head? (turn : Turn) (rest : Text) :
    ∀ c ∈ (turn.word ++ rest).head?, isShaft c = false := by
  obtain ⟨word, mem, _⟩ := turn
  simp only [directions, List.mem_cons, List.not_mem_nil, or_false] at mem
  rcases mem with rfl | rfl | rfl | rfl <;> rintro c ⟨⟩ <;> rfl

theorem Shaft.found (shaft : Shaft) {rest : Text} (h : Stops rest) :
    shaftLength (shaft.text ++ rest) = shaft.stroke.text.length ∧
      shaft.stroke.text.length + turnLength ((shaft.text ++ rest).drop shaft.stroke.text.length) =
        shaft.text.length := by
  obtain ⟨stroke, turn⟩ := shaft
  unfold Shaft.text
  cases turn with
  | none =>
    rw [List.append_nil, List.drop_left, turnLength_eq, if_pos h.turn]
    exact ⟨runLength_append stroke.drawn h.stroke, rfl⟩
  | some turn =>
    have direction := directionLength_turn turn rest
    have word : turn.word.length ≠ 0 :=
      mt List.length_eq_zero_iff.mp (ne_nil_of_mem_direction turn.mem)
    have line : shaftLength (turn.stroke.text ++ rest) = turn.stroke.text.length :=
      runLength_append turn.stroke.drawn h.stroke
    simp only
    rw [List.append_assoc, List.drop_left, turnLength_eq, direction, if_neg word,
      List.append_assoc, List.drop_left, line, List.length_append, List.length_append]
    exact ⟨runLength_append stroke.drawn (turn.head? _), rfl⟩

theorem stops_nil : Stops [] := ⟨nofun, rfl⟩

theorem Head.stops (head : Head) (rest : Text) : Stops (head.right ++ rest) := by
  constructor
  · cases head <;> rintro c ⟨⟩ <;> rfl
  · cases head <;> rfl

theorem Shaft.exists_cons (shaft : Shaft) :
    ∃ s tail, shaft.text = s :: tail ∧ isShaft s = true := by
  obtain ⟨s, more, hs⟩ := List.exists_cons_of_ne_nil shaft.stroke.nonempty
  refine ⟨s, shaft.text.tail, ?_, shaft.stroke.drawn s (hs ▸ List.mem_cons_self)⟩
  rw [Shaft.text, hs]
  rfl

/-- A line with its head on the right is found in one piece. A letter is a head
only if its word ends there. -/
theorem recognize_rightward (shaft : Shaft) (head : Head) {rest : Text}
    (h : head = .circle → atWordEnd rest = true) :
    recognize (shaft.text ++ head.right ++ rest) =
      some (.arrow .right, (shaft.text ++ head.right).length) := by
  obtain ⟨line, turned⟩ := shaft.found (head.stops rest)
  have found : rightHeadLength (head.right ++ rest) = head.right.length := by
    cases head with
    | circle =>
      show (if atWordEnd rest then 1 else 0) = 1
      rw [h rfl]; rfl
    | _ => rfl
  refine recognize_of_rightArrowRule (rightArrowRule_eq_some_iff.mpr ⟨?_, ?_⟩)
  · rw [List.append_assoc, line]
    exact mt List.length_eq_zero_iff.mp shaft.stroke.nonempty
  · rw [List.append_assoc, line, turned, List.drop_left, found, List.length_append]

theorem Head.leftHeadLength (head : Head) {c : CodePoint} (cs : Text)
    (apart : head = .angle → c ≠ '|')
    (follows : head = .circle ∨ head = .star → isShaft c = true) :
    leftHeadLength (head.left ++ c :: cs) = head.left.length := by
  cases head with
  | triangle => rfl
  | angle =>
    show Token.leftHeadLength ('<' :: c :: cs) = 1
    rw [leftHeadLength_cons_cons, if_pos rfl, if_neg (apart rfl)]
  | circle =>
    show Token.leftHeadLength ('o' :: c :: cs) = 1
    simp [leftHeadLength_cons_cons, follows]
  | star =>
    show Token.leftHeadLength ('*' :: c :: cs) = 1
    simp [leftHeadLength_cons_cons, follows]

/-- A line with its head on the left is found in one piece. Between them a
direction word may stand, but not behind a head that would be a name there. -/
theorem recognize_leftward (head : Head) {lead : Text} (shaft : Shaft) {rest : Text}
    (fits : lead = [] ∨ lead ∈ directions ∧ (head = .triangle ∨ head = .angle))
    (h : Stops rest) : recognize (head.left ++ lead ++ shaft.text ++ rest) =
      some (.arrow .left, (head.left ++ lead ++ shaft.text).length) := by
  obtain ⟨line, turned⟩ := shaft.found h
  obtain ⟨s, tail, front, drawn⟩ := shaft.exists_cons
  have direction : directionLength (lead ++ (shaft.text ++ rest)) = lead.length := by
    rw [front]
    rcases fits with rfl | ⟨word, _⟩
    · exact directionLength_of_isShaft drawn
    · rw [← directionLength_append word drawn (tail ++ rest), List.append_assoc]
      rfl
  have bound : leftHeadLength (head.left ++ (lead ++ (shaft.text ++ rest))) =
      head.left.length := by
    rw [front]
    rcases fits with rfl | ⟨word, bracket⟩
    · refine head.leftHeadLength _ ?_ fun _ => drawn
      rintro _ rfl
      cases drawn
    · obtain ⟨c, others, rfl⟩ := List.exists_cons_of_ne_nil (ne_nil_of_mem_direction word)
      refine head.leftHeadLength _ ?_ ?_
      · rintro _ rfl
        have letter := isWord_of_mem_direction word _ List.mem_cons_self
        cases letter
      · rintro (rfl | rfl) <;> simp at bracket
  refine recognize_of_leftArrowRule (leftArrowRule_eq_some_iff.mpr ?_)
  simp only [List.append_assoc, bound, ← List.drop_drop, List.drop_left, direction, line]
  refine ⟨?_, mt List.length_eq_zero_iff.mp shaft.stroke.nonempty, ?_⟩
  · cases head <;> exact Nat.succ_ne_zero _
  · rw [Nat.add_assoc, turned, List.length_append, List.length_append, Nat.add_assoc]

/-- An arrow is found in one piece. -/
theorem recognize_right (arrow : Headed) :
    recognize arrow.right = some (.arrow .right, arrow.right.length) := by
  have ends : arrow.head = .circle → atWordEnd [] = true := fun _ => rfl
  have found := recognize_rightward arrow.shaft arrow.head ends
  rwa [List.append_nil] at found

theorem recognize_left (arrow : Headed) :
    recognize arrow.left = some (.arrow .left, arrow.left.length) := by
  have found := recognize_leftward arrow.head arrow.shaft.reverse (.inl rfl) stops_nil
  rwa [List.append_nil, List.append_nil] at found

/-! ## What else is found -/

/-- The first characters that strokes are drawn with. -/
theorem exists_stroke {cs : Text} (h : shaftLength cs ≠ 0) :
    ∃ stroke : Stroke, ∃ rest, cs = stroke.text ++ rest ∧ shaftLength cs = stroke.text.length :=
  ⟨⟨cs.takeWhile isShaft, mt List.length_eq_zero_iff.mpr h, fun _ => List.mem_takeWhile_imp⟩,
    cs.dropWhile isShaft, List.takeWhile_append_dropWhile.symm, rfl⟩

theorem exists_turn {cs : Text} (h : directionLength cs ≠ 0) : ∃ turn : Turn, ∃ rest,
    cs = turn.word ++ turn.stroke.text ++ rest ∧
      turnLength cs = (turn.word ++ turn.stroke.text).length := by
  obtain ⟨word, hw, s, rest, rfl, hs⟩ := exists_of_directionLength h
  have direction := directionLength_append hw hs rest
  obtain ⟨stroke, behind, he, hl⟩ := exists_stroke (Nat.ne_of_gt (shaftLength_pos rest hs))
  refine ⟨⟨word, hw, stroke⟩, behind, ?_, ?_⟩
  · rw [List.append_assoc word, List.append_assoc word, ← he]
    rfl
  · rw [turnLength_eq, if_neg h, direction, List.append_assoc, List.drop_left, List.length_append]
    exact congrArg _ hl

theorem exists_shaft {cs : Text} (h : shaftLength cs ≠ 0) : ∃ shaft : Shaft, ∃ rest,
    cs = shaft.text ++ rest ∧
      shaftLength cs + turnLength (cs.drop (shaftLength cs)) = shaft.text.length := by
  obtain ⟨stroke, rest, rfl, hl⟩ := exists_stroke h
  rw [hl, List.drop_left]
  by_cases hd : directionLength rest = 0
  · refine ⟨⟨stroke, none⟩, rest, by rw [Shaft.text, List.append_nil], ?_⟩
    rw [turnLength_eq, if_pos hd, Shaft.text, List.append_nil, Nat.add_zero]
  · obtain ⟨turn, behind, rfl, ht⟩ := exists_turn hd
    refine ⟨⟨stroke, some turn⟩, behind, (List.append_assoc _ _ _).symm, ?_⟩
    rw [ht]
    exact List.length_append.symm

theorem exists_head {cs : Text} (h : rightHeadLength cs ≠ 0) : ∃ head : Head, ∃ rest,
    cs = head.right ++ rest ∧ rightHeadLength cs = head.right.length := by
  cases cs with
  | nil => exact absurd rfl h
  | cons a rest =>
    rw [rightHeadLength_cons] at h ⊢
    split_ifs at h ⊢ with triangle other
    · obtain ⟨rfl, hr⟩ := triangle
      obtain ⟨more, rfl⟩ := List.head?_eq_some_iff.mp hr
      exact ⟨.triangle, more, rfl, rfl⟩
    · rcases other with rfl | rfl | ⟨rfl, _⟩
      · exact ⟨.angle, rest, rfl, rfl⟩
      · exact ⟨.star, rest, rfl, rfl⟩
      · exact ⟨.circle, rest, rfl, rfl⟩
    · exact absurd rfl h

theorem Shaft.getLast? (shaft : Shaft) : shaft.text.getLast?.any isShaft = true := by
  have last (front : Text) (stroke : Stroke) :
      (front ++ stroke.text).getLast?.any isShaft = true := by
    rw [List.getLast?_append_of_ne_nil _ stroke.nonempty,
      List.getLast?_eq_some_getLast stroke.nonempty]
    exact stroke.drawn _ (List.getLast_mem _)
  obtain ⟨stroke, turn⟩ := shaft
  unfold Shaft.text
  cases turn with
  | none => simpa using last [] stroke
  | some turn => simpa using last (stroke.text ++ turn.word) turn.stroke

theorem arrowRule_of_recognize {cs : Text} {side : Side} {n : Nat}
    (h : recognize cs = some (.arrow side, n)) :
    match side with
    | .left => leftArrowRule cs = some n
    | .right => rightArrowRule cs = some n := by
  have found := finds_of_recognize h
  generalize hk : (.arrow side : TokenKind) = kind at found
  cases found with
  | leftArrow fits => cases hk; exact fits
  | rightArrow fits => cases hk; exact fits
  | keyword mem =>
    have others : ∀ row ∈ keywords, ∀ side, row.1 ≠ .arrow side := by
      simp [keywords]
    exact absurd hk.symm (others _ mem side)
  | brace mem =>
    have others : ∀ row ∈ braces, ∀ side, row.1 ≠ .arrow side := by
      simp [braces]
    exact absurd hk.symm (others _ mem side)
  | _ => cases hk

/-- Every arrow to the right that is found in a text is a line, or a line and a
head. -/
theorem exists_shaft_of_recognize {text behind : Text}
    (h : recognize (text ++ behind) = some (.arrow .right, text.length)) :
    ∃ shaft : Shaft, text = shaft.text ∨ ∃ head : Head, text = shaft.text ++ head.right := by
  obtain ⟨line, whole⟩ := rightArrowRule_eq_some_iff.mp (arrowRule_of_recognize h)
  obtain ⟨shaft, rest, he, hl⟩ := exists_shaft line
  rw [hl, he, List.drop_left] at whole
  refine ⟨shaft, ?_⟩
  by_cases hh : rightHeadLength rest = 0
  · rw [hh, Nat.add_zero] at whole
    exact .inl (List.append_inj he whole.symm).1
  · obtain ⟨head, more, rfl, hm⟩ := exists_head hh
    rw [hm, ← List.length_append] at whole
    rw [← List.append_assoc] at he
    exact .inr ⟨head, (List.append_inj he whole.symm).1⟩

/-- Every arrow to the right that is found in a text has a head, or ends in its
line. -/
theorem exists_headed {text behind : Text}
    (h : recognize (text ++ behind) = some (.arrow .right, text.length)) :
    (∃ arrow : Headed, arrow.right = text) ∨ text.getLast?.any isShaft = true := by
  obtain ⟨shaft, rfl | ⟨head, rfl⟩⟩ := exists_shaft_of_recognize h
  · exact .inr shaft.getLast?
  · exact .inl ⟨⟨shaft, head⟩, rfl⟩

end Arrow

/-- An arrow and its mirror image relate the same, or are refused as arrows of one
family. -/
theorem Token.relation_mirror {arrow : Arrow.Headed} {t u : Token} (ht : t.text = arrow.right)
    (hu : u.text = arrow.left) :
    (∃ relation, t.relation .right = .ok relation ∧ u.relation .left = .ok relation) ∨
      ∃ family, t.relation .right = .error (.unsupportedArrow family t) ∧
        u.relation .left = .error (.unsupportedArrow family u) := by
  unfold Token.relation
  rw [ht, hu, Arrow.family_mirror arrow]
  cases hr : (Arrow.family .left arrow.left).relation? with
  | some relation => exact .inl ⟨relation, by simp only [hr], by simp only [hr]⟩
  | none => exact .inr ⟨Arrow.family .left arrow.left, by simp only [hr], by simp only [hr]⟩

end ClassGraph
