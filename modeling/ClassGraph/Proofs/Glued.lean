import ClassGraph.Proofs.Bareword
import ClassGraph.Proofs.Mirror

/-! # Arrows glued to names

Between a name and an arrow no blank is needed: a bare name ends in front of a line.
The exception is a name whose last word is a direction, in front of an arrow without
a turn. There the word and the arrow look like an arrow with a turn, and the last
segment of the name is left to it. Behind a point this is an arrow. Behind a slash
it is none, and nothing can be read at the slash.
-/

namespace ClassGraph

open Text

namespace Arrow

/-- A direction word is no head of an arrow and no blank. -/
theorem exists_cons_of_mem_directions {word : Text} (h : word ∈ directions) :
    ∃ c others, word = c :: others ∧ Token.isShaft c = false ∧
      (∀ rest, Token.rightHeadLength (c :: rest) = 0) ∧ isBlank c = false := by
  simp only [directions, List.mem_cons, List.not_mem_nil, or_false] at h
  rcases h with rfl | rfl | rfl | rfl <;> exact ⟨_, _, rfl, rfl, fun _ => rfl, rfl⟩

/-- An arrow that ends in an angle has one of the two heads that do. -/
theorem exists_headed_of_tip {cs : Text}
    (found : Token.recognize cs = some (.arrow .right, cs.length))
    (tip : cs.getLast? = some (.scalar '>')) :
    ∃ arrow : Headed, arrow.right = cs ∧ (arrow.head = .triangle ∨ arrow.head = .angle) := by
  have before : Token.recognize (cs ++ []) = some (.arrow .right, cs.length) := by
    rwa [List.append_nil]
  rcases exists_headed before with ⟨arrow, rfl⟩ | line
  · refine ⟨arrow, rfl, ?_⟩
    obtain ⟨shaft, head⟩ := arrow
    cases head with
    | triangle => exact .inl rfl
    | angle => exact .inr rfl
    | circle => cases (List.getLast?_concat (l := shaft.text) (a := 'o')).symm.trans tip
    | star => cases (List.getLast?_concat (l := shaft.text) (a := '*')).symm.trans tip
  · rw [tip] at line
    cases line

/-- An arrow loses nothing with its direction words if it takes no turn. -/
theorem normalize_right_eq_iff (arrow : Headed) :
    normalize arrow.right = arrow.right ↔ arrow.shaft.turn = none := by
  obtain ⟨⟨stroke, turn⟩, head⟩ := arrow
  rw [normalize_right, Headed.right, List.append_cancel_right_eq, Shaft.strokes, Shaft.text,
    List.append_cancel_left_eq]
  cases turn with
  | none => exact iff_of_true rfl rfl
  | some turn =>
    refine iff_of_false (fun h => ?_) (Option.some_ne_none turn)
    exact Token.ne_nil_of_mem_direction turn.mem (List.self_eq_append_left.mp h)

theorem Headed.atWordEnd_right (arrow : Headed) (rest : Text) :
    atWordEnd (arrow.right ++ rest) = true := by
  obtain ⟨s, tail, front, drawn⟩ := arrow.shaft.exists_cons
  rw [right, front, List.append_assoc, List.cons_append, atWordEnd,
    Token.isWord_eq_false_of_isShaft drawn]
  rfl

end Arrow

namespace Token

variable {word rest : Text}

theorem beginsTurnedArrow_of_not_mem (letters : ∀ c ∈ word, isWord c = true)
    (ends : atWordEnd rest = true) (h : word ∉ Arrow.directions) :
    beginsTurnedArrow (word ++ rest) = false := by
  refine beginsTurnedArrow_of_directionLength ?_
  by_contra moves
  exact h (exists_of_directionLength_word letters ends moves).1

/-- A word in front of an arrow begins an arrow with it if it is a direction and
the arrow takes no turn itself. -/
theorem beginsTurnedArrow_right_iff (letters : ∀ c ∈ word, isWord c = true)
    {arrow : Arrow.Headed} (tip : arrow.head = .triangle ∨ arrow.head = .angle) (rest : Text) :
    beginsTurnedArrow (word ++ (arrow.right ++ rest)) = true ↔
      word ∈ Arrow.directions ∧ arrow.shaft.turn = none := by
  by_cases direction : word ∈ Arrow.directions
  · obtain ⟨⟨stroke, turn⟩, head⟩ := arrow
    have follows {a : CodePoint} (noShaft : isShaft a = false) (others : Text) :
        beginsTurnedArrow (word ++ (stroke.text ++ a :: others)) =
          (rightHeadLength (a :: others) != 0 || isBlank a) := by
      rw [← List.append_assoc,
        beginsTurnedArrow_append direction stroke.nonempty stroke.drawn noShaft]
    rw [Arrow.Headed.right, Arrow.Shaft.text, List.append_assoc, List.append_assoc]
    cases turn with
    | none =>
      refine iff_of_true ?_ ⟨direction, rfl⟩
      rcases tip with rfl | rfl
      · exact follows (a := '|') rfl ('>' :: rest)
      · exact follows (a := '>') rfl rest
    | some turn =>
      -- the second direction word stands where the head or the end would have to follow
      refine iff_of_false ?_ fun h => Option.some_ne_none turn h.2
      obtain ⟨c, others, front, noShaft, noHead, noBlank⟩ :=
        Arrow.exists_cons_of_mem_directions turn.mem
      dsimp only
      rw [front, List.append_assoc, List.cons_append, follows noShaft, noHead, noBlank]
      exact Bool.false_ne_true
  · rw [beginsTurnedArrow_of_not_mem letters (arrow.atWordEnd_right rest) direction]
    exact iff_of_false Bool.false_ne_true fun h => direction h.1

/-! ## The last word of a name -/

/-- A text is cut in one way in front of its last word. -/
theorem append_cons_word_inj {front front' word word' : Text} {c d : CodePoint}
    (letters : ∀ c ∈ word, isWord c = true) (letters' : ∀ c ∈ word', isWord c = true)
    (hc : isWord c = false) (hd : isWord d = false)
    (h : front ++ c :: word = front' ++ d :: word') : front = front' ∧ c = d ∧ word = word' := by
  -- read backwards, the last word is the longest run of letters
  have reversed {front word : Text} {c : CodePoint} (letters : ∀ c ∈ word, isWord c = true)
      (hc : isWord c = false) : (front ++ c :: word).reverse.takeWhile isWord = word.reverse := by
    refine (takeWhile_isWord_eq_iff fun d hd => letters d (List.mem_reverse.mp hd)).mpr
      ⟨c :: front.reverse, ?_, ?_⟩
    · rw [List.reverse_append, List.reverse_cons, List.append_assoc]; rfl
    · rw [atWordEnd, hc]; rfl
  have same : word = word' := by
    rw [← List.reverse_inj, ← reversed letters hc, h, reversed letters' hd]
  subst same
  obtain ⟨rfl, last⟩ := List.append_inj' h rfl
  exact ⟨rfl, (List.cons.inj last).1, rfl⟩

namespace Bareword

variable {name : Bareword} {init : List Segment} {s : Segment}

/-- A name with other segments. -/
def withSegments (name : Bareword) (segments : List Segment) : Bareword :=
  { name with segments := segments }

theorem text_of_concat (h : name.segments = init ++ [s]) :
    name.text = (name.withSegments init).text ++ s.separator.sign :: s.word := by
  have written : Segment.write (init ++ [s]) = Segment.write init ++ s.text := by
    rw [Segment.write, List.flatMap_append, List.flatMap_singleton]; rfl
  rw [text, h, written, ← List.append_assoc]
  rfl

/-- What stands behind the last separator of a name is the word of its last segment. -/
theorem exists_concat_of_text {front word : Text} {c : CodePoint}
    (letters : ∀ c ∈ word, isWord c = true) (hc : isWord c = false)
    (h : name.text = front ++ c :: word) : ∃ init s, name.segments = init ++ [s] ∧
      (name.withSegments init).text = front ∧ s.separator.sign = c ∧ s.word = word := by
  rcases List.eq_nil_or_concat name.segments with none | ⟨init, s, hs⟩
  · have whole : name.first = front ++ c :: word := by
      rw [← h, text, none]
      exact (List.append_nil _).symm
    have letter := name.isWord_of_mem_first c
      (whole ▸ List.mem_append_right _ List.mem_cons_self)
    rw [hc] at letter
    cases letter
  · rw [List.concat_eq_append] at hs
    rw [text_of_concat hs] at h
    obtain ⟨cut, sign, last⟩ :=
      append_cons_word_inj s.letters letters s.separator.isWord_sign hc h
    exact ⟨init, s, hs, cut, sign, last⟩

/-- In front of an arrow with an angle a name goes on to its end unless its last
word begins an arrow with it. -/
theorem recognize_right_iff (alone : recognize name.text = some (.name, name.text.length))
    (letter : name.text ≠ ("o" : Text)) {arrow : Arrow.Headed}
    (dash : arrow.right.head? = some (.scalar '-'))
    (tip : arrow.head = .triangle ∨ arrow.head = .angle) (rest : Text) :
    recognize (name.text ++ (arrow.right ++ rest)) = some (.name, name.text.length) ↔
      ∀ s, [s] <:+ name.segments → ¬ (s.word ∈ Arrow.directions ∧ arrow.shaft.turn = none) := by
  have closed : segmentsLength (arrow.right ++ rest) = 0 := by
    obtain ⟨line, hl⟩ := List.head?_eq_some_iff.mp dash
    rw [hl, List.cons_append, segmentsLength_cons, if_neg (by simp)]
  obtain ⟨unreserved, noHead, apart⟩ := name.recognize_alone_iff.mp alone
  have bead : ¬ (name.first = ("o" : Text) ∧
      ∃ c ∈ (Segment.write name.segments ++ (arrow.right ++ rest)).head?, isShaft c = true) := by
    rintro ⟨first, shaft⟩
    cases hs : name.segments with
    | nil =>
      refine letter ?_
      rw [text, hs, first]
      rfl
    | cons s segments =>
      rw [hs] at shaft noHead
      exact noHead ⟨first, shaft⟩
  rw [name.recognize_iff (arrow.atWordEnd_right rest) closed]
  simp only [← beginsTurnedArrow_right_iff (Segment.letters _) tip rest, Bool.not_eq_true]
  exact ⟨fun h => h.2.2.2, fun h => ⟨unreserved, bead, apart, h⟩⟩

/-- A name ends in front of its last segment if that begins an arrow. -/
theorem recognize_withSegments (alone : recognize name.text = some (.name, name.text.length))
    (hs : name.segments = init ++ [s]) {rest : Text} (ends : atWordEnd rest = true)
    (turned : beginsTurnedArrow (s.word ++ rest) = true) :
    recognize ((name.withSegments init).text ++ s.separator.sign :: (s.word ++ rest)) =
      some (.name, (name.withSegments init).text.length) := by
  have closed : segmentsLength (s.separator.sign :: (s.word ++ rest)) = 0 := by
    rw [segmentsLength_cons, turned, if_neg (by simp)]
  have ended : atWordEnd (s.separator.sign :: (s.word ++ rest)) = true := by
    rw [atWordEnd, s.separator.isWord_sign]; rfl
  obtain ⟨unreserved, noHead, apart⟩ := name.recognize_alone_iff.mp alone
  rw [hs] at noHead apart
  refine ((name.withSegments init).recognize_iff ended closed).mpr ⟨unreserved, ?_, ?_, ?_⟩
  · rintro ⟨first, shaft⟩
    refine noHead ⟨first, ?_⟩
    cases init with
    | nil => exact shaft
    | cons t segments => exact shaft
  · rintro ⟨t, u, pair, draws⟩
    exact apart ⟨t, u, pair.trans (List.infix_append' [] init [s]), draws⟩
  · intro t last
    by_contra drawn
    rw [Bool.not_eq_false] at drawn
    obtain ⟨segments, rfl⟩ := last
    refine apart ⟨t, s, ⟨segments, [], ?_⟩, (beginsTurnedArrow_segment_iff t.letters ends).mp drawn⟩
    rw [List.append_nil, List.append_assoc]; rfl

end Bareword

/-! ## Nothing begins at a slash -/

theorem readNext_slash {cs : Text} (h : cs.head? ≠ some (.scalar '\'')) (p : Position) :
    readNext ⟨.scalar '/' :: cs, p⟩ = .error ⟨.strayCharacter '/', p⟩ := by
  have piece : gapPiece (.scalar '/' :: cs) = .none := by
    unfold gapPiece
    split
    · rename_i he
      rw [List.cons_inj_right] at he
      exact absurd (congrArg List.head? he) h
    · rfl
  obtain ⟨solid, closed⟩ := gapPiece_eq_none_iff.mp piece
  have here : Cursor.skipGap ⟨.scalar '/' :: cs, p⟩ = .ok ⟨.scalar '/' :: cs, p⟩ :=
    Cursor.skipGap_of_solid solid closed
  have none : recognize (.scalar '/' :: cs) = none := by
    rw [Option.eq_none_iff_forall_ne_some]
    rintro ⟨kind, n⟩ found
    cases any_opensToken_of_recognize found
  rw [readNext_of_skipGap here]
  unfold readHere
  simp only [none]
  rfl

/-- A text whose first token ends in front of a slash is refused there. -/
theorem tokenize_slash {front cs : Text} {kind : TokenKind}
    (found : recognize (front ++ .scalar '/' :: cs) = some (kind, front.length))
    (continues : kind ≠ .finish) (h : cs.head? ≠ some (.scalar '\'')) :
    tokenize (front ++ .scalar '/' :: cs) = .error ⟨.strayCharacter '/', .behind front⟩ := by
  have first : readNext ⟨front ++ .scalar '/' :: cs, .first⟩ = _ :=
    readNext_of_gap .nil found .first
  rw [if_neg continues] at first
  have rest := readAll_of_error (readNext_slash h ((Position.first.advance []).advance front))
  have stop : ((Position.first.advance []).advance front) = .behind front :=
    Position.first_advance front
  have all : stream (front ++ .scalar '/' :: cs) =
      readAll ⟨front ++ .scalar '/' :: cs, .first⟩ := rfl
  unfold tokenize
  rw [all, readAll_of_token first, rest, stop]

variable {front n : Text}

/-- No quoted name ends in a slash and a word. -/
theorem quotedRule_slash_ne (letters : ∀ c ∈ word, isWord c = true) :
    quotedRule (front ++ .scalar '/' :: word) ≠ some (front ++ .scalar '/' :: word).length := by
  intro quoted
  generalize hn : front ++ .scalar '/' :: word = n at quoted
  have whole : quotedRule (n ++ []) = some n.length := by rwa [List.append_nil]
  obtain ⟨inside, he, _⟩ := exists_of_quotedRule whole
  have closes := append_cons_word_inj letters (List.forall_mem_nil _) rfl rfl (hn.trans he)
  cases closes.2.1

/-- Whether a name goes on to its end in front of an arrow with an angle. -/
theorem recognize_glued_iff (alone : recognize n = some (.name, n.length))
    (slashed : n.head? = some (.scalar '"') ∨
      ∀ front back, n = front ++ .scalar '.' :: back → .scalar '/' ∈ back)
    (letter : n ≠ ("o" : Text)) {arrow : Arrow.Headed}
    (dash : arrow.right.head? = some (.scalar '-'))
    (tip : arrow.head = .triangle ∨ arrow.head = .angle) (rest : Text) :
    recognize (n ++ (arrow.right ++ rest)) = some (.name, n.length) ↔
      ¬ (arrow.shaft.turn = none ∧
        ∃ front, ∃ word ∈ Arrow.directions, n = front ++ .scalar '/' :: word) := by
  rcases exists_bareword_of_recognize alone with quoted | ⟨name, rfl⟩
  · have whole : quotedRule (n ++ []) = some n.length := by rwa [List.append_nil]
    refine iff_of_true (recognize_of_quotedRule (quotedRule_lineEnd _ whole)) ?_
    rintro ⟨_, front, word, direction, rfl⟩
    exact quotedRule_slash_ne (isWord_of_mem_direction direction) quoted
  · rw [name.recognize_right_iff alone letter dash tip]
    constructor
    · rintro whole ⟨straight, front, word, direction, he⟩
      obtain ⟨init, s, hs, _, _, rfl⟩ :=
        name.exists_concat_of_text (isWord_of_mem_direction direction) rfl he
      exact whole s ⟨init, hs.symm⟩ ⟨direction, straight⟩
    · rintro whole s ⟨init, hs⟩ ⟨direction, straight⟩
      have cut := Bareword.text_of_concat hs.symm
      cases separator : s.separator with
      | slash =>
        rw [separator] at cut
        exact whole ⟨straight, _, s.word, direction, cut⟩
      | point =>
        rw [separator] at cut
        rcases slashed with quote | slashed
        · have starts := name.starts
          rw [show name.initial = .scalar '"' from Option.some.inj quote] at starts
          cases starts
        · cases s.letters _ (slashed _ _ cut)

/-- A last word behind a slash is left to an arrow that it begins with what follows. -/
theorem recognize_front (letters : ∀ c ∈ word, isWord c = true)
    (alone : recognize (front ++ .scalar '/' :: word) =
      some (.name, (front ++ .scalar '/' :: word).length))
    (ends : atWordEnd rest = true) (turned : beginsTurnedArrow (word ++ rest) = true) :
    recognize (front ++ .scalar '/' :: (word ++ rest)) = some (.name, front.length) := by
  rcases exists_bareword_of_recognize alone with quoted | ⟨name, hn⟩
  · exact absurd quoted (quotedRule_slash_ne letters)
  · obtain ⟨init, s, hs, rfl, sign, rfl⟩ := name.exists_concat_of_text letters rfl hn
    rw [← hn] at alone
    rw [← sign]
    exact name.recognize_withSegments alone hs ends turned

end Token

/-- A name that is quoted, or has no separator, or a slash as its last one, can be
glued to an arrow with an angle and the arrow to a name, unless the last word of the
first name is a direction behind a slash and the arrow has no direction word. Then the
slash is refused. -/
theorem glued_arrow {n a m : Text}
    (hn : Token.forms n = .ok [(.name, n), (.finish, [])])
    (ha : Token.forms a = .ok [(.arrow .right, a), (.finish, [])])
    (hm : Token.forms m = .ok [(.name, m), (.finish, [])])
    (slashed : n.head? = some (.scalar '"') ∨
      ∀ front back, n = front ++ .scalar '.' :: back → .scalar '/' ∈ back)
    (letter : n ≠ ("o" : Text)) (dash : a.head? = some (.scalar '-'))
    (tip : a.getLast? = some (.scalar '>')) :
    (Token.forms (n ++ a ++ m) =
        .ok [(.name, n), (.arrow .right, a), (.name, m), (.finish, [])] ↔
      ¬ (Arrow.normalize a = a ∧
        ∃ front, ∃ word ∈ Arrow.directions, n = front ++ .scalar '/' :: word)) ∧
    ∀ front, ∀ word ∈ Arrow.directions, n = front ++ .scalar '/' :: word →
      Arrow.normalize a = a →
        tokenize (n ++ a ++ m) = .error ⟨.strayCharacter '/', .behind front⟩ := by
  have alone := (Token.forms_eq_single_iff (f := (.name, n)) nofun).mp hn
  obtain ⟨arrow, rfl, head⟩ := Arrow.exists_headed_of_tip
    ((Token.forms_eq_single_iff (f := (.arrow .right, a)) nofun).mp ha) tip
  rw [Arrow.normalize_right_eq_iff, List.append_assoc]
  have refused (front : Text) : ∀ word ∈ Arrow.directions, n = front ++ .scalar '/' :: word →
      arrow.shaft.turn = none →
        tokenize (n ++ (arrow.right ++ m)) = .error ⟨.strayCharacter '/', .behind front⟩ := by
    rintro word direction rfl straight
    have letters := Token.isWord_of_mem_direction direction
    have ends := arrow.atWordEnd_right m
    have turned := (Token.beginsTurnedArrow_right_iff letters head m).mpr ⟨direction, straight⟩
    rw [List.append_assoc, List.cons_append]
    refine Token.tokenize_slash (Token.recognize_front letters alone ends turned) nofun ?_
    obtain ⟨c, others, rfl, _⟩ := Arrow.exists_cons_of_mem_directions direction
    rintro ⟨rfl⟩
    cases letters _ List.mem_cons_self
  refine ⟨⟨?_, fun whole => ?_⟩, refused⟩
  · rintro read ⟨straight, front, word, direction, he⟩
    rw [Token.forms, refused front word direction he straight] at read
    cases read
  · have first := (Token.recognize_glued_iff alone slashed letter dash head m).mpr whole
    have second : Token.recognize (arrow.right ++ m) =
        some (.arrow .right, arrow.right.length) := by
      refine Arrow.recognize_rightward arrow.shaft arrow.head fun circle => ?_
      rw [circle] at head
      simp at head
    have words := Token.Spells.cons first nofun
      (Token.Spells.cons second nofun (Token.forms_eq_ok_iff.mp hm))
    exact Token.forms_eq_ok_iff.mpr words

/-- A name with a point that ends in a direction behind a slash: an arrow with a turn
can be glued to it, a straight one cannot. -/
theorem glued_arrow_behind_direction : ∃ n m : Text, n = "com.acme/up" ∧ m = "\"an I\"" ∧
    Token.forms (n ++ ("-left->" : Text) ++ m) =
      .ok [(.name, n), (.arrow .right, "-left->"), (.name, m), (.finish, [])] ∧
    tokenize (n ++ ("-|>" : Text) ++ m) = .error ⟨.strayCharacter '/', ⟨1, 9⟩⟩ := by
  let n : Text := ("com.acme/up" : String)
  let m : Text := ("\"an I\"" : String)
  have name : Token.forms n = .ok [(.name, n), (.finish, [])] := by decide +kernel
  have behind : Token.forms m = .ok [(.name, m), (.finish, [])] := by decide +kernel
  have slashed : ∀ front back, n = front ++ .scalar '.' :: back → .scalar '/' ∈ back := by
    intro front back he
    have cut : ("com" : Text) ++ .scalar '.' :: ("acme/up" : Text) = front ++ .scalar '.' :: back :=
      he
    obtain ⟨_, _, rfl⟩ := (List.append_cons_inj_of_notMem (by decide) (by decide)).mp cut
    decide
  have letter : n ≠ ("o" : Text) := by decide
  obtain ⟨turned, _⟩ := glued_arrow (a := "-left->") name (by decide +kernel) behind
    (.inr slashed) letter rfl rfl
  obtain ⟨_, straight⟩ := glued_arrow (a := "-|>") name (by decide +kernel) behind
    (.inr slashed) letter rfl rfl
  have bends : Arrow.normalize "-left->" ≠ ("-left->" : Text) := by decide +kernel
  refine ⟨n, m, rfl, rfl, turned.mpr fun h => bends h.1, ?_⟩
  exact straight "com.acme" "up" List.mem_cons_self rfl (by decide +kernel)

/-- A straight arrow glued to a name that ends in a direction behind a slash: each
text is a token of its own, and the three together are not read. -/
theorem slashed_direction_not_glued :
    Token.forms "Lexer/up" = .ok [(.name, "Lexer/up"), (.finish, [])] ∧
    Token.forms "-|>" = .ok [(.arrow .right, "-|>"), (.finish, [])] ∧
    Token.forms "I" = .ok [(.name, "I"), (.finish, [])] ∧
    tokenize "Lexer/up-|>I" = .error ⟨.strayCharacter '/', ⟨1, 6⟩⟩ := by
  decide +kernel

end ClassGraph
