import ClassGraph.Proofs.Form

/-! # Tokens are recognized again at the end of a line

The rules are tried in order, so a token is found again only if no rule in front
of its own fits in the new place. The first character of a token tells most rules
off. A bare name is the exception: its word must not be reserved, and it must not
be the letter that heads an arrow. Neither depends on what follows the name.
-/

namespace ClassGraph

open Text

namespace Token

variable {text behind after cs : Text} {kind : TokenKind} {n : Nat}

/-! ## Words -/

/-- The words that are no names where they stand alone. -/
def reserved : List Text :=
  ["abstract", "class", "interface", "package", "namespace", "extends", "implements"]

theorem takeWhile_isWord_eq_iff {word : Text} (hw : ∀ c ∈ word, isWord c = true) :
    cs.takeWhile isWord = word ↔ ∃ rest, cs = word ++ rest ∧ atWordEnd rest = true := by
  constructor
  · rintro rfl
    refine ⟨cs.dropWhile isWord, List.takeWhile_append_dropWhile.symm, ?_⟩
    rw [atWordEnd_iff, runLength_eq_zero_iff]
    intro c hc
    have stops := List.head?_dropWhile_not isWord cs
    rw [Option.mem_def.mp hc] at stops
    exact stops
  · rintro ⟨rest, rfl, ends⟩
    rw [List.takeWhile_append_of_pos hw]
    rw [List.length_eq_zero_iff.mp (atWordEnd_iff.mp ends), List.append_nil]

theorem keyword_eq_some_iff {word : Text} :
    keyword word cs = some n ↔ (∃ rest, cs = word ++ rest ∧ atWordEnd rest = true) ∧
      n = word.length := by
  unfold keyword
  constructor
  · intro h
    split at h
    · rename_i rest hr
      split at h
      · rename_i ends
        exact ⟨⟨rest, stripWord?_eq_some_iff.mp hr, ends⟩, (Option.some.inj h).symm⟩
      · cases h
    · cases h
  · rintro ⟨⟨rest, rfl, ends⟩, rfl⟩
    rw [stripWord?_eq_some_iff.mpr rfl]
    simp only [ends, if_true]

theorem keyword_eq_none_iff {word : Text} (hw : ∀ c ∈ word, isWord c = true) :
    keyword word cs = none ↔ cs.takeWhile isWord ≠ word := by
  rw [Ne, takeWhile_isWord_eq_iff hw, Option.eq_none_iff_forall_ne_some]
  constructor
  · intro h found
    exact h _ (keyword_eq_some_iff.mpr ⟨found, rfl⟩)
  · intro h n hn
    exact h (keyword_eq_some_iff.mp hn).1

theorem eq_of_keyword {word : Text} (h : keyword word (text ++ behind) = some text.length) :
    text = word := by
  obtain ⟨⟨rest, he, _⟩, hl⟩ := keyword_eq_some_iff.mp h
  exact (List.append_inj he hl).1

theorem keyword_eq_none_of_ne {a c : CodePoint} {word rest : Text} (h : a ≠ c) :
    keyword (a :: word) (c :: rest) = none := by
  rw [Option.eq_none_iff_forall_ne_some]
  intro n hn
  obtain ⟨⟨tail, he, _⟩, _⟩ := keyword_eq_some_iff.mp hn
  exact h (List.cons.inj he).1.symm

theorem eq_of_mark {word : Text} (h : mark word (text ++ behind) = some text.length) :
    text = word := by
  obtain ⟨rest, hr, hl⟩ := Option.map_eq_some_iff.mp h
  exact (List.append_inj (stripWord?_eq_some_iff.mp hr) hl.symm).1

/-- The word alone is enough: where `class` follows, it stands behind a blank. -/
theorem abstractRule_eq_none_iff :
    abstractRule cs = none ↔ cs.takeWhile isWord ≠ ("abstract" : Text) := by
  rw [← keyword_eq_none_iff (by decide)]
  unfold abstractRule keyword
  split
  · rename_i hs
    rw [hs]
  · rename_i rest hs
    rw [hs]
    simp only
    split
    · rename_i n hn
      have ends : atWordEnd rest = true := by
        split at hn
        · cases hn
        · rename_i gap
          cases rest with
          | nil => rfl
          | cons c tail =>
            by_contra inside
            refine gap (runLength_eq_zero_iff.mpr fun d hd => ?_)
            cases hd
            by_contra blank
            rw [Bool.not_eq_false, Bool.or_eq_true, beq_iff_eq, beq_iff_eq] at blank
            rcases blank with rfl | rfl <;> exact inside rfl
      simp [ends]
    · split <;> simp

theorem orElse_eq_none_iff {first second : Rule} :
    orElse first second cs = none ↔ first cs = none ∧ second cs = none := by
  unfold orElse
  cases first cs <;> simp

theorem directionLength_of_isShaft {s : CodePoint} {rest : Text} (hs : isShaft s = true) :
    directionLength (s :: rest) = 0 := by
  rcases isShaft_iff.mp hs with rfl | rfl <;> rfl

theorem eq_some_of_orElse {first second : Rule} (h : orElse first second cs = some n) :
    first cs = some n ∨ second cs = some n := by
  unfold orElse at h
  cases hf : first cs with
  | none => rw [hf] at h; exact .inr h
  | some m => rw [hf] at h; exact .inl h

theorem exists_of_barewordRule (h : barewordRule cs = some n) :
    ∃ c rest, cs = c :: rest ∧ isWordStart c = true := by
  unfold barewordRule at h
  split at h
  · split at h
    · rename_i hc
      exact ⟨_, _, rfl, hc⟩
    · cases h
  · cases h

/-- A letter is the head of an arrow as soon as a line follows it. -/
theorem leftArrowRule_eq_none_iff {c : CodePoint} {rest : Text} (hc : isWordStart c = true) :
    leftArrowRule (c :: rest) = none ↔ leftHeadLength (c :: rest) = 0 := by
  rw [Option.eq_none_iff_forall_ne_some]
  have noAngle : c ≠ '<' := by rintro rfl; cases hc
  constructor
  · intro h
    by_contra head
    cases rest with
    | nil =>
      exact head (by simp [leftHeadLength, noAngle])
    | cons s tail =>
      have one := leftHeadLength_cons_cons c s tail
      rw [if_neg noAngle] at one
      split at one
      · rename_i letter
        have shaft : shaftLength ((c :: s :: tail).drop (1 + 0)) ≠ 0 :=
          Nat.ne_of_gt (shaftLength_pos _ letter.2)
        refine h _ (leftArrowRule_eq_some_iff.mpr ⟨head, ?_, rfl⟩)
        rwa [one, List.drop_one, List.tail_cons, directionLength_of_isShaft letter.2]
      · exact head one
  · intro h n hn
    exact (leftArrowRule_eq_some_iff.mp hn).1 h

/-- What names the rules in front of the rule for names leave alone. -/
theorem forall_rules_eq_none_iff {c : CodePoint} {rest : Text} (hc : isWordStart c = true) :
    (∀ row ∈ rules.dropLast, row.2 (c :: rest) = none) ↔
      (c :: rest).takeWhile isWord ∉ reserved ∧ leftHeadLength (c :: rest) = 0 := by
  have differs {d : CodePoint} (hd : isWordStart d = false) : d ≠ c := by
    rintro rfl
    exact absurd hc (Bool.eq_false_iff.mp hd)
  have letter := isWord_of_isWordStart hc
  have start : startRule (c :: rest) = none :=
    Option.map_eq_none_iff.mpr (keyword_eq_none_of_ne (differs rfl))
  have finish : keyword "@enduml" (c :: rest) = none := keyword_eq_none_of_ne (differs rfl)
  have right : rightArrowRule (c :: rest) = none := by
    rw [Option.eq_none_iff_forall_ne_some]
    intro n hn
    obtain ⟨s, tail, he, hs⟩ := exists_of_shaftLength (rightArrowRule_eq_some_iff.mp hn).1
    cases he
    rw [isWord_eq_false_of_isShaft hs] at letter
    cases letter
  have brace {d : CodePoint} (hd : isWordStart d = false) : mark [d] (c :: rest) = none := by
    rw [Option.eq_none_iff_forall_ne_some]
    intro n hn
    obtain ⟨tail, ht, _⟩ := Option.map_eq_some_iff.mp hn
    exact differs hd (List.cons.inj (stripWord?_eq_some_iff.mp ht)).1.symm
  have rows : rules.dropLast = [(.start, startRule), (.finish, keyword "@enduml"),
    (.declare .abstract, abstractRule), (.declare .concrete, keyword "class"),
    (.declare .interface, keyword "interface"),
    (.package, orElse (keyword "package") (keyword "namespace")),
    (.relate .inherits, keyword "extends"), (.relate .realizes, keyword "implements"),
    (.arrow .left, leftArrowRule), (.arrow .right, rightArrowRule), (.openBrace, mark "\x7b"),
    (.closeBrace, mark "\x7d")] := rfl
  have open_ : mark "\x7b" (c :: rest) = none := brace rfl
  have close : mark "\x7d" (c :: rest) = none := brace rfl
  rw [rows]
  simp only [List.forall_mem_cons, List.not_mem_nil, false_imp_iff, implies_true, and_true,
    start, finish, right, open_, close, true_and, abstractRule_eq_none_iff, orElse_eq_none_iff,
    leftArrowRule_eq_none_iff hc, and_assoc]
  simp only [reserved, List.mem_cons, List.not_mem_nil, not_or, or_false, and_assoc]
  rw [keyword_eq_none_iff (by decide), keyword_eq_none_iff (by decide),
    keyword_eq_none_iff (by decide), keyword_eq_none_iff (by decide),
    keyword_eq_none_iff (by decide), keyword_eq_none_iff (by decide)]

/-- A name is what no other rule fits. -/
theorem recognize_eq_name_iff : recognize cs = some (.name, n) ↔
    (∀ row ∈ rules.dropLast, row.2 cs = none) ∧ orElse quotedRule barewordRule cs = some n := by
  have last : rules = rules.dropLast ++ [(.name, orElse quotedRule barewordRule)] := rfl
  have others : ∀ row ∈ rules.dropLast, row.1 ≠ .name := by decide
  unfold recognize
  rw [last, List.findSome?_append, Option.or_eq_some_iff, List.findSome?_eq_none_iff,
    List.dropLast_concat]
  constructor
  · intro h
    rcases h with h | ⟨unfit, h⟩
    · obtain ⟨row, hm, hr⟩ := List.exists_of_findSome?_eq_some h
      obtain ⟨m, _, he⟩ := Option.map_eq_some_iff.mp hr
      exact absurd (Prod.ext_iff.mp he).1 (others row hm)
    · refine ⟨fun row hm => Option.map_eq_none_iff.mp (unfit row hm), ?_⟩
      simpa using h
  · rintro ⟨unfit, h⟩
    exact .inr ⟨fun row hm => Option.map_eq_none_iff.mpr (unfit row hm), by simp [h]⟩

theorem exists_of_leftHeadLength (h : leftHeadLength cs ≠ 0) :
    ∃ c rest, cs = c :: rest ∧ (c = '<' ∨ c = 'o' ∨ c = '*') := by
  unfold leftHeadLength at h
  split at h
  · exact ⟨_, _, rfl, .inl rfl⟩
  · exact ⟨_, _, rfl, .inl rfl⟩
  · exact ⟨_, _, rfl, .inr (.inl rfl)⟩
  · exact ⟨_, _, rfl, .inr (.inr rfl)⟩
  · exact absurd rfl h

/-! ## The rules, told apart -/

/-- The keywords whose forms are the words themselves. -/
def keywords : List (TokenKind × Text) :=
  [(.finish, "@enduml"), (.declare .concrete, "class"), (.declare .interface, "interface"),
    (.package, "package"), (.package, "namespace"), (.relate .inherits, "extends"),
    (.relate .realizes, "implements")]

def braces : List (TokenKind × Text) := [(.openBrace, "\x7b"), (.closeBrace, "\x7d")]

/-- A rule for tokens of a kind finds so many characters. Keywords and braces have
rules of one shape each. -/
inductive Finds (cs : Text) (n : Nat) : TokenKind → Prop
  | start (fits : startRule cs = some n) : Finds cs n .start
  | abstract (fits : abstractRule cs = some n) : Finds cs n (.declare .abstract)
  | keyword {row : TokenKind × Text} (mem : row ∈ keywords)
      (fits : Token.keyword row.2 cs = some n) : Finds cs n row.1
  | leftArrow (fits : leftArrowRule cs = some n) : Finds cs n (.arrow .left)
  | rightArrow (fits : rightArrowRule cs = some n) : Finds cs n (.arrow .right)
  | brace {row : TokenKind × Text} (mem : row ∈ braces) (fits : mark row.2 cs = some n) :
      Finds cs n row.1
  | quoted (fits : quotedRule cs = some n) : Finds cs n .name
  | bareword (fits : barewordRule cs = some n) : Finds cs n .name

theorem finds_of_recognize (h : recognize cs = some (kind, n)) : Finds cs n kind := by
  obtain ⟨⟨k, rule⟩, hm, hr⟩ := List.exists_of_findSome?_eq_some h
  obtain ⟨m, fits, he⟩ := Option.map_eq_some_iff.mp hr
  cases he
  have word {k : TokenKind} {w : Text} (mem : (k, w) ∈ keywords)
      (fits : keyword w cs = some n) : Finds cs n k := .keyword mem fits
  have brace {k : TokenKind} {w : Text} (mem : (k, w) ∈ braces) (fits : mark w cs = some n) :
      Finds cs n k := .brace mem fits
  simp only [rules, List.mem_cons, Prod.mk.injEq, List.not_mem_nil, or_false] at hm
  rcases hm with ⟨rfl, rfl⟩ | ⟨rfl, rfl⟩ | ⟨rfl, rfl⟩ | ⟨rfl, rfl⟩ | ⟨rfl, rfl⟩ | ⟨rfl, rfl⟩ |
    ⟨rfl, rfl⟩ | ⟨rfl, rfl⟩ | ⟨rfl, rfl⟩ | ⟨rfl, rfl⟩ | ⟨rfl, rfl⟩ | ⟨rfl, rfl⟩ | ⟨rfl, rfl⟩
  · exact .start fits
  · exact word (by decide) fits
  · exact .abstract fits
  · exact word (by decide) fits
  · exact word (by decide) fits
  · exact (eq_some_of_orElse fits).elim (word (by decide)) (word (by decide))
  · exact word (by decide) fits
  · exact word (by decide) fits
  · exact .leftArrow fits
  · exact .rightArrow fits
  · exact brace (by decide) fits
  · exact brace (by decide) fits
  · exact (eq_some_of_orElse fits).elim .quoted .bareword

/-! ## Rules that no rule in front of them competes with -/

theorem recognize_of_startRule (h : startRule cs = some n) : recognize cs = some (.start, n) := by
  simp only [recognize, rules, List.findSome?_cons, h]
  rfl

theorem exists_of_abstractRule (h : abstractRule cs = some n) :
    ∃ rest, cs = ("abstract" : Text) ++ rest := by
  have word : cs.takeWhile isWord = ("abstract" : Text) := by
    by_contra other
    rw [abstractRule_eq_none_iff.mpr other] at h
    cases h
  obtain ⟨rest, he, _⟩ := (takeWhile_isWord_eq_iff (by decide)).mp word
  exact ⟨rest, he⟩

theorem recognize_of_abstractRule (h : abstractRule cs = some n) :
    recognize cs = some (.declare .abstract, n) := by
  obtain ⟨rest, rfl⟩ := exists_of_abstractRule h
  simp only [recognize, rules, List.findSome?_cons, h]
  rfl

theorem recognize_of_leftArrowRule (h : leftArrowRule cs = some n) :
    recognize cs = some (.arrow .left, n) := by
  obtain ⟨c, rest, rfl, hc⟩ := exists_of_leftHeadLength (leftArrowRule_eq_some_iff.mp h).1
  rcases hc with rfl | rfl | rfl <;> simp only [recognize, rules, List.findSome?_cons, h] <;> rfl

theorem recognize_of_rightArrowRule (h : rightArrowRule cs = some n) :
    recognize cs = some (.arrow .right, n) := by
  obtain ⟨s, rest, rfl, hs⟩ := exists_of_shaftLength (rightArrowRule_eq_some_iff.mp h).1
  rcases isShaft_iff.mp hs with rfl | rfl <;>
    simp only [recognize, rules, List.findSome?_cons, h] <;> rfl

theorem recognize_of_quotedRule (h : quotedRule cs = some n) :
    recognize cs = some (.name, n) := by
  obtain ⟨inside, rest, rfl, _⟩ := quotedRule_eq_some_iff.mp h
  simp only [recognize, rules, List.findSome?_cons, orElse, h]
  rfl

theorem recognize_of_mem_keywords {row : TokenKind × Text} (hm : row ∈ keywords)
    (ha : AtLineEnd after) : recognize (row.2 ++ after) = some (row.1, row.2.length) := by
  simp only [keywords, List.mem_cons, List.not_mem_nil, or_false] at hm
  rcases hm with rfl | rfl | rfl | rfl | rfl | rfl | rfl <;> rcases ha with rfl | ⟨rest, rfl⟩ <;>
    rfl

theorem recognize_of_mem_braces {row : TokenKind × Text} (hm : row ∈ braces) (after : Text) :
    recognize (row.2 ++ after) = some (row.1, row.2.length) := by
  simp only [braces, List.mem_cons, List.not_mem_nil, or_false] at hm
  rcases hm with rfl | rfl <;> rfl

/-! ## The end of the line -/

theorem atWordEnd_lineEnd {line : Text} (ha : AtLineEnd after)
    (h : atWordEnd (line ++ behind) = true) : atWordEnd (line ++ after) = true := by
  cases line with
  | nil => exact atWordEnd_of_atLineEnd ha
  | cons c line => exact h

theorem startRule_lineEnd (ha : AtLineEnd after)
    (h : startRule (text ++ behind) = some text.length) :
    startRule (text ++ after) = some text.length := by
  obtain ⟨m, word, hl⟩ := Option.map_eq_some_iff.mp h
  obtain ⟨⟨rest, he, ends⟩, rfl⟩ := keyword_eq_some_iff.mp word
  have cut := List.takeWhile_append_dropWhile (p := fun c : CodePoint => c != '\n') (l := rest)
  rw [he, List.drop_left] at hl
  rw [← cut, ← List.append_assoc] at he
  obtain ⟨rfl, rfl⟩ := List.append_inj he (by rw [List.length_append]; exact hl.symm)
  have line : .scalar '\n' ∉ rest.takeWhile fun c : CodePoint => c != '\n' :=
    fun hn => absurd (List.mem_takeWhile_imp hn) (by decide)
  rw [← cut] at ends
  have again := keyword_eq_some_iff.mpr
    ⟨⟨_, List.append_assoc ("@startuml" : Text) _ after, atWordEnd_lineEnd ha ends⟩, rfl⟩
  refine Option.map_eq_some_iff.mpr ⟨_, again, ?_⟩
  rw [List.append_assoc, List.drop_left, List.length_append, lineLength, runLength,
    takeWhile_line line ha]

theorem abstractRule_append {blanks rest : Text}
    (hb : ∀ c ∈ blanks, (c == ' ' || c == '\t') = true) (hne : blanks.length ≠ 0)
    (ends : atWordEnd rest = true) :
    abstractRule (("abstract" : Text) ++ (blanks ++ (("class" : Text) ++ rest))) =
      some (("abstract" : Text) ++ blanks ++ ("class" : Text)).length := by
  have run : runLength (fun c : CodePoint => c == ' ' || c == '\t')
      (blanks ++ (("class" : Text) ++ rest)) = blanks.length := runLength_append_cons hb rfl
  have word : keyword ("class" : Text) (("class" : Text) ++ rest) = some 5 :=
    keyword_eq_some_iff.mpr ⟨⟨rest, rfl, ends⟩, rfl⟩
  unfold abstractRule
  rw [stripWord?_eq_some_iff.mpr rfl]
  simp only [run, if_neg hne, List.drop_left, word]
  rw [List.length_append, List.length_append]; rfl

theorem abstractRule_lineEnd (ha : AtLineEnd after)
    (h : abstractRule (text ++ behind) = some text.length) :
    abstractRule (text ++ after) = some text.length := by
  unfold abstractRule at h
  split at h
  · cases h
  · rename_i rest hs
    rw [stripWord?_eq_some_iff] at hs
    simp only at h
    split at h
    · rename_i n hn
      split at hn
      · cases hn
      · rename_i gap
        rw [drop_runLength] at hn
        obtain ⟨⟨tail, ht, _⟩, rfl⟩ := keyword_eq_some_iff.mp hn
        let blanks := rest.takeWhile fun c : CodePoint => c == ' ' || c == '\t'
        have cut : blanks ++ (("class" : Text) ++ tail) = rest := by
          rw [← ht]; exact List.takeWhile_append_dropWhile
        have whole : text = ("abstract" : Text) ++ blanks ++ ("class" : Text) := by
          rw [← cut, ← List.append_assoc, ← List.append_assoc] at hs
          refine (List.append_inj hs ?_).1
          rw [List.length_append, List.length_append]
          exact (Option.some.inj h).symm
        rw [whole, List.append_assoc _ _ after, List.append_assoc]
        refine abstractRule_append (fun c hc => ?_) gap (atWordEnd_of_atLineEnd ha)
        have blank := List.mem_takeWhile_imp hc
        exact blank
    · split at h
      · have short : text = ("abstract" : Text) := (List.append_inj hs (Option.some.inj h).symm).1
        rw [short]
        rcases ha with rfl | ⟨rest, rfl⟩ <;> rfl
      · cases h

theorem leftHeadLength_singleton (ha : AtLineEnd after) {c : CodePoint}
    (hc : isWordStart c = true) :
    leftHeadLength ([c] ++ after) = 0 := by
  have noAngle : c ≠ '<' := by rintro rfl; cases hc
  rcases ha with rfl | ⟨rest, rfl⟩
  · simp [leftHeadLength, noAngle]
  · rw [List.singleton_append, leftHeadLength_cons_cons, if_neg noAngle, if_neg]
    exact fun h => absurd h.2 (by decide)

/-- A bare name stays one: its word goes on as far as before, so that it is not
reserved, and a line that would make it the head of an arrow stood there before. -/
theorem forall_rules_lineEnd (ha : AtLineEnd after)
    (hb : barewordRule (text ++ behind) = some text.length)
    (h : ∀ row ∈ rules.dropLast, row.2 (text ++ behind) = none) :
    ∀ row ∈ rules.dropLast, row.2 (text ++ after) = none := by
  cases text with
  | nil => exact absurd (fits_barewordRule _ _ hb).1 (Nat.lt_irrefl 0)
  | cons c t =>
    rw [List.cons_append, barewordRule_cons] at hb
    split at hb
    · rename_i starts
      rw [Option.some.injEq, List.length_cons] at hb
      have letter := isWord_of_isWordStart starts
      have word : (c :: t ++ after).takeWhile isWord = (c :: t ++ behind).takeWhile isWord := by
        refine takeWhile_lineEnd rfl ha ?_
        rw [List.cons_append, runLength_cons_of_pos letter, List.length_cons]
        omega
      have head : leftHeadLength (c :: t ++ behind) = 0 → leftHeadLength (c :: t ++ after) = 0 := by
        intro h
        cases t with
        | nil => exact leftHeadLength_singleton ha starts
        | cons d t => rwa [leftHeadLength_lineEnd behind (Nat.le_add_left 2 _)]
      obtain ⟨free, noHead⟩ := (forall_rules_eq_none_iff starts).mp h
      exact (forall_rules_eq_none_iff starts).mpr ⟨fun hm => free (word ▸ hm), head noHead⟩
    · cases hb

theorem quotedRule_eq_none {c : CodePoint} {rest : Text} (hc : isWordStart c = true) :
    quotedRule (c :: rest) = none := by
  rw [Option.eq_none_iff_forall_ne_some]
  intro n hn
  obtain ⟨_, _, he, _⟩ := quotedRule_eq_some_iff.mp hn
  cases (List.cons.inj he).1
  cases hc

/-- A token is recognized again, as the same one, where the line ends behind it. -/
theorem recognize_lineEnd (ha : AtLineEnd after)
    (h : recognize (text ++ behind) = some (kind, text.length)) :
    recognize (text ++ after) = some (kind, text.length) := by
  cases finds_of_recognize h with
  | start fits => exact recognize_of_startRule (startRule_lineEnd ha fits)
  | abstract fits => exact recognize_of_abstractRule (abstractRule_lineEnd ha fits)
  | keyword mem fits =>
    obtain rfl := eq_of_keyword fits
    exact recognize_of_mem_keywords mem ha
  | leftArrow fits => exact recognize_of_leftArrowRule (leftArrowRule_lineEnd ha fits)
  | rightArrow fits => exact recognize_of_rightArrowRule (rightArrowRule_lineEnd ha fits)
  | brace mem fits =>
    obtain rfl := eq_of_mark fits
    exact recognize_of_mem_braces mem after
  | quoted fits => exact recognize_of_quotedRule (quotedRule_lineEnd after fits)
  | bareword fits =>
    have again := barewordRule_lineEnd ha fits
    obtain ⟨c, rest, he, hc⟩ := exists_of_barewordRule again
    refine recognize_eq_name_iff.mpr
      ⟨forall_rules_lineEnd ha fits (recognize_eq_name_iff.mp h).1, ?_⟩
    rw [orElse, he, quotedRule_eq_none hc, ← he, again]; rfl

/-! ## No gap begins where a token does -/

theorem code_of_isWordStart {c : CodePoint} (h : isWordStart c = true) :
    65 ≤ c.code ∧ c.code < 0x80 := by
  cases c with
  | surrogate _ => cases h
  | scalar c =>
    simp only [isWordStart, CodePoint.satisfies, Bool.or_eq_true, beq_iff_eq] at h
    unfold Char.isAlpha Char.isUpper Char.isLower at h
    simp only [Bool.or_eq_true, Bool.and_eq_true, decide_eq_true_eq] at h
    rcases h with (h | h) | rfl
    · have low : 65 ≤ c.toNat := h.1
      have high : c.toNat ≤ 90 := h.2
      exact ⟨low, Nat.lt_of_le_of_lt high (by decide)⟩
    · have low : 97 ≤ c.toNat := h.1
      have high : c.toNat ≤ 122 := h.2
      exact ⟨Nat.le_trans (by decide) low, Nat.lt_of_le_of_lt high (by decide)⟩
    · decide

/-- The characters that tokens begin with. -/
def opensToken (c : CodePoint) : Bool :=
  isWordStart c || ("@<*-.\x7b\x7d\"" : Text).contains c

theorem opensToken_of_isShaft {s : CodePoint} (h : isShaft s = true) : opensToken s = true := by
  rcases isShaft_iff.mp h with rfl | rfl <;> rfl

theorem any_opensToken_of_recognize (h : recognize cs = some (kind, n)) :
    cs.head?.any opensToken = true := by
  cases finds_of_recognize h with
  | start fits =>
    obtain ⟨_, hk, _⟩ := Option.map_eq_some_iff.mp fits
    obtain ⟨⟨rest, rfl, _⟩, _⟩ := keyword_eq_some_iff.mp hk
    rfl
  | abstract fits =>
    obtain ⟨rest, rfl⟩ := exists_of_abstractRule fits
    rfl
  | keyword mem fits =>
    obtain ⟨⟨rest, rfl, _⟩, _⟩ := keyword_eq_some_iff.mp fits
    simp only [keywords, List.mem_cons, List.not_mem_nil, or_false] at mem
    rcases mem with rfl | rfl | rfl | rfl | rfl | rfl | rfl <;> rfl
  | leftArrow fits =>
    obtain ⟨c, rest, rfl, hc⟩ := exists_of_leftHeadLength (leftArrowRule_eq_some_iff.mp fits).1
    rcases hc with rfl | rfl | rfl <;> rfl
  | rightArrow fits =>
    obtain ⟨s, rest, rfl, hs⟩ := exists_of_shaftLength (rightArrowRule_eq_some_iff.mp fits).1
    exact opensToken_of_isShaft hs
  | brace mem fits =>
    obtain ⟨rest, hs, _⟩ := Option.map_eq_some_iff.mp fits
    obtain rfl := stripWord?_eq_some_iff.mp hs
    simp only [braces, List.mem_cons, List.not_mem_nil, or_false] at mem
    rcases mem with rfl | rfl <;> rfl
  | quoted fits =>
    obtain ⟨inside, rest, rfl, _⟩ := quotedRule_eq_some_iff.mp fits
    rfl
  | bareword fits =>
    obtain ⟨c, rest, rfl, hc⟩ := exists_of_barewordRule fits
    exact Bool.or_eq_true_iff.mpr (.inl hc)

theorem isBlank_eq_false_of_code {c : CodePoint} (low : 32 < c.code) (high : c.code < 0x80) :
    isBlank c = false := by
  have space : c ≠ ' ' := by
    rintro rfl
    exact absurd low (by decide)
  unfold isBlank
  rw [if_pos high, Bool.or_eq_false_iff, Bool.or_eq_false_iff, beq_eq_false_iff_ne,
    Bool.and_eq_false_iff, Bool.and_eq_false_iff, decide_eq_false_iff_not,
    decide_eq_false_iff_not, decide_eq_false_iff_not, decide_eq_false_iff_not]
  exact ⟨⟨space, .inr (by omega)⟩, .inr (by omega)⟩

theorem isBlank_of_opensToken {c : CodePoint} (hc : opensToken c = true) : isBlank c = false := by
  have bounds : 32 < c.code ∧ c.code < 0x80 := by
    rcases Bool.or_eq_true_iff.mp hc with hc | hc
    · have := code_of_isWordStart hc
      omega
    · have signs : ∀ d ∈ ("@<*-.\x7b\x7d\"" : Text), 32 < d.code ∧ d.code < 0x80 := by decide
      exact signs c (List.contains_iff_mem.mp hc)
  exact isBlank_eq_false_of_code bounds.1 bounds.2

theorem gapPiece_of_recognize (h : recognize cs = some (kind, n)) : gapPiece cs = .none := by
  have opens := any_opensToken_of_recognize h
  cases cs with
  | nil => cases opens
  | cons c rest =>
    have quote : c ≠ '\'' := by rintro rfl; cases opens
    have slash : c ≠ '/' := by rintro rfl; cases opens
    unfold gapPiece
    split
    · rename_i he
      exact absurd (List.cons.inj he).1 slash
    · unfold lineGap
      split
      · rename_i he
        exact absurd (List.cons.inj he).1 quote
      · rw [List.takeWhile_cons_of_neg (Bool.eq_false_iff.mp (isBlank_of_opensToken opens))]; rfl

end Token

end ClassGraph
