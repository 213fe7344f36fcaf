import ClassGraph.Proofs.Spelling

/-! # Which words are one name

A bare name is a word, and further words behind points and slashes. The rule for
names reads on to the end of it, but not every such text is one name: the first
word may be reserved, or be the letter that heads an arrow, and a direction word
may begin an arrow that has the next word for its head. Nothing else keeps the
text from being one name, as long as what follows neither goes on with the last
word nor is a further segment.
-/

namespace ClassGraph

open Text

theorem Text.isBlank_eq_false_of_isWord {c : CodePoint} (h : isWord c = true) :
    isBlank c = false := by
  unfold isWord at h
  split at h
  · rename_i small
    refine Token.isBlank_eq_false_of_code ?_ small
    cases c with
    | surrogate _ => cases h
    | scalar c =>
      have known : isWordStart c = true ∨ c.isDigit = true := by
        unfold Char.isAlphanum at h
        simp only [isWordStart, CodePoint.satisfies, Bool.or_eq_true] at h ⊢
        tauto
      rcases known with starts | digit
      · have low := (Token.code_of_isWordStart starts).1
        omega
      · unfold Char.isDigit at digit
        simp only [Bool.and_eq_true, decide_eq_true_eq, ge_iff_le, UInt32.le_iff_toNat_le] at digit
        exact Nat.lt_of_lt_of_le (by decide) digit.1
  · rename_i wide
    by_contra blank
    rw [Bool.not_eq_false, isBlank, if_neg wide] at blank
    obtain ⟨range, hr, low, high⟩ := CodeTable.contains_iff.mp blank
    have apart : ∀ range ∈ wideBlanks, ∀ i < range.2 + 1 - range.1,
        isWideWord (range.1 + i) = false := by decide +kernel
    have none := apart range hr (c.code - range.1) (by omega)
    rw [Nat.add_sub_cancel' low, h] at none
    cases none

namespace Token

inductive Separator
  | point
  | slash
deriving DecidableEq

def Separator.sign : Separator → CodePoint
  | point => '.'
  | slash => '/'

/-- A further word of a name. -/
structure Segment where
  separator : Separator
  word : Text
  nonempty : word ≠ []
  letters : ∀ c ∈ word, isWord c = true

namespace Segment

def text (s : Segment) : Text := s.separator.sign :: s.word

def write (segments : List Segment) : Text := segments.flatMap text

/-- The words of two segments make an arrow: a direction, a point for the line and
a letter for the head. -/
def DrawsArrow (s t : Segment) : Prop :=
  s.word ∈ Arrow.directions ∧ t.separator = .point ∧ t.word = ("o" : Text)

end Segment

/-- A word that begins with an ASCII letter or the underscore, and its segments. -/
structure Bareword where
  initial : CodePoint
  others : Text
  segments : List Segment
  starts : isWordStart initial = true
  letters : ∀ c ∈ others, isWord c = true

namespace Bareword

def first (name : Bareword) : Text := name.initial :: name.others

def text (name : Bareword) : Text := name.first ++ Segment.write name.segments

end Bareword

variable {word rest : Text}

/-! ## Segments -/

theorem Separator.isWord_sign (s : Separator) : isWord s.sign = false := by cases s <;> rfl

theorem Separator.isShaft_sign_iff {s : Separator} : isShaft s.sign = true ↔ s = .point := by
  cases s <;> decide

theorem Segment.write_cons (s : Segment) (segments : List Segment) (rest : Text) :
    write (s :: segments) ++ rest = s.separator.sign :: (s.word ++ (write segments ++ rest)) := by
  rw [write, List.flatMap_cons, List.append_assoc]; rfl

theorem Segment.head?_write (segments : List Segment) :
    (write segments).head? = segments.head?.map fun s => s.separator.sign := by
  cases segments <;> rfl

theorem Segment.atWordEnd_write (segments : List Segment) (ends : atWordEnd rest = true) :
    atWordEnd (write segments ++ rest) = true := by
  cases segments with
  | nil => exact ends
  | cons s segments =>
    rw [write_cons, atWordEnd, s.separator.isWord_sign]; rfl

theorem runLength_isWord_append (letters : ∀ c ∈ word, isWord c = true)
    (ends : atWordEnd rest = true) : runLength isWord (word ++ rest) = word.length :=
  congrArg List.length ((takeWhile_isWord_eq_iff letters).mpr ⟨rest, rfl, ends⟩)

/-- An arrow that begins with a word begins with a direction, and its line follows. -/
theorem exists_of_directionLength_word (letters : ∀ c ∈ word, isWord c = true)
    (ends : atWordEnd rest = true) (h : directionLength (word ++ rest) ≠ 0) :
    word ∈ Arrow.directions ∧ ∃ s ∈ rest.head?, isShaft s = true := by
  obtain ⟨direction, hd, s, tail, he, hs⟩ := exists_of_directionLength h
  rw [List.append_assoc] at he
  have own := (takeWhile_isWord_eq_iff letters).mpr ⟨rest, rfl, ends⟩
  have same := (takeWhile_isWord_eq_iff (isWord_of_mem_direction hd)).mpr
    ⟨[s] ++ tail, he, atWordEnd_iff.mpr (runLength_eq_zero_iff.mpr fun c hc => by
      cases hc; exact isWord_eq_false_of_isShaft hs)⟩
  obtain rfl : word = direction := own.symm.trans same
  exact ⟨hd, s, by rw [List.append_cancel_left he]; rfl, hs⟩

theorem beginsTurnedArrow_of_directionLength {cs : Text} (h : directionLength cs = 0) :
    beginsTurnedArrow cs = false := by
  unfold beginsTurnedArrow
  rw [h]; rfl

theorem beginsTurnedArrow_segment_iff {t : Segment} (letters : ∀ c ∈ word, isWord c = true)
    (ends : atWordEnd rest = true) : beginsTurnedArrow (word ++ (t.text ++ rest)) = true ↔
      word ∈ Arrow.directions ∧ t.separator = .point ∧ t.word = ("o" : Text) := by
  obtain ⟨a, others, ht⟩ := List.exists_cons_of_ne_nil t.nonempty
  have letter : isWord a = true := t.letters a (ht ▸ List.mem_cons_self)
  have noShaft : isShaft a = false := by
    by_contra shaft
    rw [isWord_eq_false_of_isShaft (Bool.not_eq_false _ ▸ shaft)] at letter
    cases letter
  by_cases turned : word ∈ Arrow.directions ∧ t.separator = .point
  · obtain ⟨direction, point⟩ := turned
    have cut : word ++ (t.text ++ rest) = word ++ [.scalar '.'] ++ a :: (others ++ rest) := by
      rw [Segment.text, ht, point, List.append_assoc]; rfl
    have lone : atWordEnd (others ++ rest) = true ↔ others = [] := by
      rw [atWordEnd_iff, runLength_isWord_append
        (fun c hc => t.letters c (ht ▸ List.mem_cons_of_mem _ hc)) ends, List.length_eq_zero_iff]
    have word_eq : t.word = ("o" : Text) ↔ a = 'o' ∧ others = [] := by
      rw [ht]; exact List.cons_eq_cons
    rw [cut, beginsTurnedArrow_append direction (List.cons_ne_nil _ [])
      (List.forall_mem_singleton.mpr rfl) noShaft, rightHeadLength_of_isWord letter,
      isBlank_eq_false_of_isWord letter, word_eq]
    simp [direction, point, lone]
  · have still : directionLength (word ++ (t.text ++ rest)) = 0 := by
      by_contra moves
      have ended : atWordEnd (t.text ++ rest) = true := by
        rw [Segment.text, List.cons_append, atWordEnd, t.separator.isWord_sign]; rfl
      obtain ⟨direction, s, hs, shaft⟩ := exists_of_directionLength_word letters ended moves
      cases hs
      exact turned ⟨direction, Separator.isShaft_sign_iff.mp shaft⟩
    rw [beginsTurnedArrow_of_directionLength still]
    exact iff_of_false Bool.false_ne_true fun h => turned ⟨h.1, h.2.1⟩

/-- The segments are read to their end if none of them is left to an arrow. -/
theorem segmentsLength_write_iff (segments : List Segment) (ends : atWordEnd rest = true)
    (closed : segmentsLength rest = 0) :
    segmentsLength (Segment.write segments ++ rest) = (Segment.write segments).length ↔
      ∀ s others, s :: others <:+ segments →
        beginsTurnedArrow (s.word ++ (Segment.write others ++ rest)) = false := by
  induction segments with
  | nil =>
    refine iff_of_true closed fun s others h => ?_
    cases List.suffix_nil.mp h
  | cons s segments ih =>
    have run := runLength_isWord_append s.letters (Segment.atWordEnd_write segments ends)
    have length : (Segment.write (s :: segments)).length =
        1 + s.word.length + (Segment.write segments).length := by
      have cut := congrArg List.length (Segment.write_cons s segments [])
      rw [List.append_nil, List.append_nil, List.length_cons, List.length_append] at cut
      omega
    have sign : s.separator.sign = '.' ∨ s.separator.sign = '/' := by
      cases s.separator
      · exact .inl rfl
      · exact .inr rfl
    have nonempty : s.word.length ≠ 0 := mt List.length_eq_zero_iff.mp s.nonempty
    rw [Segment.write_cons, segmentsLength_cons, run, List.drop_left, length]
    simp only [List.suffix_cons_iff, sign, nonempty, true_and, ne_eq, not_false_eq_true, and_true]
    split
    · rename_i kept
      rw [Nat.add_left_cancel_iff, ih]
      constructor
      · rintro all t others (he | ht)
        · cases he
          exact kept
        · exact all t others ht
      · exact fun all t others ht => all t others (.inr ht)
    · rename_i left
      -- nothing is read behind a segment that is left to an arrow
      exact iff_of_false (by omega) fun all => left (all s segments (.inl rfl))

/-- No segment is left to an arrow if no two draw one, and the last one begins
none with what follows. -/
theorem forall_suffix_iff (segments : List Segment) (ends : atWordEnd rest = true) :
    (∀ s others, s :: others <:+ segments →
        beginsTurnedArrow (s.word ++ (Segment.write others ++ rest)) = false) ↔
      (¬ ∃ s t, [s, t] <:+: segments ∧ s.DrawsArrow t) ∧
        ∀ s, [s] <:+ segments → beginsTurnedArrow (s.word ++ rest) = false := by
  have between (s t : Segment) (others : List Segment) :
      beginsTurnedArrow (s.word ++ (Segment.write (t :: others) ++ rest)) = true ↔
        s.DrawsArrow t := by
    rw [Segment.write, List.flatMap_cons, List.append_assoc]
    exact beginsTurnedArrow_segment_iff s.letters (Segment.atWordEnd_write others ends)
  constructor
  · intro all
    refine ⟨?_, fun s hs => all s [] hs⟩
    rintro ⟨s, t, pair, draws⟩
    obtain ⟨_, ⟨others, rfl⟩, suffix⟩ := List.infix_iff_prefix_suffix.mp pair
    have kept := all s (t :: others) suffix
    rw [(between s t others).mpr draws] at kept
    cases kept
  · rintro ⟨apart, last⟩ s others suffix
    cases others with
    | nil => exact last s suffix
    | cons t others =>
      by_contra left
      refine apart ⟨s, t, ?_, (between s t others).mp (Bool.not_eq_false _ ▸ left)⟩
      exact List.infix_iff_prefix_suffix.mpr ⟨_, List.prefix_append [s, t] others, suffix⟩

/-! ## Names -/

namespace Bareword

theorem isWord_of_mem_first (name : Bareword) : ∀ c ∈ name.first, isWord c = true := by
  intro c hc
  rcases List.mem_cons.mp hc with rfl | hc
  · exact isWord_of_isWordStart name.starts
  · exact name.letters c hc

/-- A name is taken for the head of an arrow if it is the one letter and a line
follows. -/
theorem leftHeadLength_eq_zero_iff (name : Bareword) :
    leftHeadLength (name.first ++ rest) = 0 ↔
      ¬ (name.first = ("o" : Text) ∧ ∃ s ∈ rest.head?, isShaft s = true) := by
  obtain ⟨initial, others, _, starts, letters⟩ := name
  have noAngle : initial ≠ '<' := by rintro rfl; cases starts
  have noStar : initial ≠ '*' := by rintro rfl; cases starts
  have lone : (initial :: others : Text) = ("o" : Text) ↔ initial = 'o' ∧ others = [] :=
    List.cons_eq_cons
  show leftHeadLength (initial :: (others ++ rest)) = 0 ↔ _
  rw [first, lone]
  cases others with
  | nil =>
    cases rest with
    | nil => simp [leftHeadLength, noAngle]
    | cons s rest => simp [leftHeadLength_cons_cons, noAngle, noStar]
  | cons b others =>
    have noShaft : isShaft b = false := by
      by_contra shaft
      have letter := letters b List.mem_cons_self
      rw [isWord_eq_false_of_isShaft (Bool.not_eq_false _ ▸ shaft)] at letter
      cases letter
    simp [leftHeadLength_cons_cons, noAngle, noShaft]

/-- A bare name is recognized as one in front of what does not go on with it. -/
theorem recognize_iff (name : Bareword) (ends : atWordEnd rest = true)
    (closed : segmentsLength rest = 0) :
    recognize (name.text ++ rest) = some (.name, name.text.length) ↔
      name.first ∉ reserved ∧
      ¬ (name.first = ("o" : Text) ∧
        ∃ s ∈ (Segment.write name.segments ++ rest).head?, isShaft s = true) ∧
      (¬ ∃ s t, [s, t] <:+: name.segments ∧ s.DrawsArrow t) ∧
        ∀ s, [s] <:+ name.segments → beginsTurnedArrow (s.word ++ rest) = false := by
  have ended := Segment.atWordEnd_write name.segments ends
  have word := (takeWhile_isWord_eq_iff name.isWord_of_mem_first).mpr ⟨_, rfl, ended⟩
  have quote : quotedRule (name.initial :: (name.others ++ (Segment.write name.segments ++ rest))) =
      none := quotedRule_eq_none name.starts
  have run := runLength_isWord_append name.letters ended
  have bare : orElse quotedRule barewordRule (name.text ++ rest) = some name.text.length ↔
      segmentsLength (Segment.write name.segments ++ rest) =
        (Segment.write name.segments).length := by
    rw [text, List.append_assoc, first, List.cons_append, orElse, quote, Option.orElse_none,
      barewordRule_cons, if_pos name.starts, run, List.drop_left, Option.some.injEq,
      List.length_append, List.length_cons]
    omega
  rw [recognize_eq_name_iff, bare, segmentsLength_write_iff _ ends closed,
    forall_suffix_iff _ ends, ← name.leftHeadLength_eq_zero_iff, text, List.append_assoc]
  rw [first, List.cons_append] at word ⊢
  rw [forall_rules_eq_none_iff name.starts, word, and_assoc]

/-- At the end of a text no last word begins an arrow. -/
theorem recognize_alone_iff (name : Bareword) :
    recognize name.text = some (.name, name.text.length) ↔
      name.first ∉ reserved ∧
      ¬ (name.first = ("o" : Text) ∧
        ∃ s ∈ (Segment.write name.segments).head?, isShaft s = true) ∧
      ¬ ∃ s t, [s, t] <:+: name.segments ∧ s.DrawsArrow t := by
  have ends : atWordEnd [] = true := rfl
  have closed : segmentsLength [] = 0 := by rw [segmentsLength]
  have last : ∀ s, [s] <:+ name.segments → beginsTurnedArrow (s.word ++ []) = false := by
    intro s _
    refine beginsTurnedArrow_of_directionLength ?_
    by_contra moves
    obtain ⟨_, _, none, _⟩ := exists_of_directionLength_word s.letters rfl moves
    cases none
  have alone := name.recognize_iff ends closed
  rwa [List.append_nil, List.append_nil, and_iff_left last] at alone

end Bareword

theorem exists_segments {cs : Text} (h : segmentsLength cs = cs.length) :
    ∃ segments, Segment.write segments = cs := by
  induction hn : cs.length using Nat.strong_induction_on generalizing cs with
  | _ n ih =>
    subst hn
    cases cs with
    | nil => exact ⟨[], rfl⟩
    | cons c t =>
      rw [segmentsLength_cons] at h
      split_ifs at h with next
      obtain ⟨sign, -, run⟩ := next
      obtain ⟨segments, rest⟩ := ih (t.drop (runLength isWord t)).length
        (by rw [List.length_drop, List.length_cons]; omega)
        (by rw [List.length_drop]; rw [List.length_cons] at h; omega) rfl
      obtain ⟨separator, rfl⟩ : ∃ s : Separator, s.sign = c := by
        rcases sign with rfl | rfl
        · exact ⟨.point, rfl⟩
        · exact ⟨.slash, rfl⟩
      let segment : Segment := ⟨separator, t.takeWhile isWord,
        fun empty => run (congrArg List.length empty), fun _ hc => List.mem_takeWhile_imp hc⟩
      refine ⟨segment :: segments, ?_⟩
      have written := Segment.write_cons segment segments []
      rw [List.append_nil, List.append_nil, rest, drop_runLength,
        List.takeWhile_append_dropWhile] at written
      exact written

/-- What is recognized as a name to its end is a quoted or a bare one. -/
theorem exists_bareword_of_recognize {cs : Text} (h : recognize cs = some (.name, cs.length)) :
    quotedRule cs = some cs.length ∨ ∃ name : Bareword, name.text = cs := by
  refine (eq_some_of_orElse (recognize_eq_name_iff.mp h).2).imp_right fun bare => ?_
  obtain ⟨c, t, rfl, starts⟩ := exists_of_barewordRule bare
  rw [barewordRule_cons, if_pos starts, Option.some.injEq, List.length_cons] at bare
  have behind : segmentsLength (t.drop (runLength isWord t)) =
      (t.drop (runLength isWord t)).length := by
    rw [List.length_drop]; omega
  obtain ⟨segments, rest⟩ := exists_segments behind
  refine ⟨⟨c, t.takeWhile isWord, segments, starts, fun _ hc => List.mem_takeWhile_imp hc⟩, ?_⟩
  show c :: t.takeWhile isWord ++ Segment.write segments = c :: t
  rw [rest, drop_runLength, List.cons_append, List.takeWhile_append_dropWhile]

/-- A letter is a name in front of a space and at the end of a text. -/
theorem recognize_letter {c : CodePoint} (starts : isWordStart c = true)
    (h : rest = [] ∨ ∃ tail, rest = .scalar ' ' :: tail) :
    recognize (c :: rest) = some (.name, 1) := by
  let name : Bareword := ⟨c, [], [], starts, nofun⟩
  have long : ∀ w ∈ reserved, w.length ≠ 1 := by decide
  have ends : atWordEnd rest = true := by rcases h with rfl | ⟨tail, rfl⟩ <;> rfl
  have closed : segmentsLength rest = 0 := by
    rcases h with rfl | ⟨tail, rfl⟩
    · rw [segmentsLength]
    · rw [segmentsLength_cons, if_neg (by simp)]
  refine (name.recognize_iff ends closed).mpr ⟨fun h => long _ h rfl, ?_, ?_, fun s hs => ?_⟩
  · rintro ⟨_, s, hs, shaft⟩
    rcases h with rfl | ⟨tail, rfl⟩ <;> cases hs
    cases shaft
  · rintro ⟨s, t, pair, _⟩
    cases List.infix_nil.mp pair
  · cases List.suffix_nil.mp hs

end Token

/-- A bare name is one name exactly if its first word is not reserved, the letter
`o` is not its first word in front of a point, and no direction word within it is
followed by the lone letter `o` behind a point. -/
theorem bareword_is_name_iff (name : Token.Bareword) :
    Token.forms name.text = .ok [(.name, name.text), (.finish, [])] ↔
      name.first ∉ Token.reserved ∧
      ¬ (name.first = ("o" : Text) ∧ ∃ s ∈ name.segments.head?, s.separator = .point) ∧
      ¬ ∃ s t, [s, t] <:+: name.segments ∧ s.DrawsArrow t := by
  have next : (∃ c ∈ (Token.Segment.write name.segments).head?, Token.isShaft c = true) ↔
      ∃ s ∈ name.segments.head?, s.separator = .point := by
    rw [Token.Segment.head?_write]
    simp [Token.Separator.isShaft_sign_iff]
  rw [Token.forms_eq_single_iff (f := (.name, name.text)) nofun, name.recognize_alone_iff, next]

end ClassGraph
