import ClassGraph.Proofs.Scan

/-! # The blocks are the matches of two expressions

A regular expression is matched by backtracking: its choices are tried in a fixed
order, and the first that leads to a match counts. For the two expressions that
stand for a block of either style, what comes first in that order is the leftmost
mark of each kind: a shorter header is tried before a longer one, a longer run of
blanks before a shorter one, and no choice is taken back, since what the shorter
header or the longer run leaves for the closing mark is all that there is.
-/

namespace ClassGraph

open Text Page

/-- A regular expression without groups. -/
inductive Pattern where
  | empty
  | one (p : CodePoint → Bool)
  /-- A place between a word character and another one, or an end of the page. -/
  | boundary
  | seq (first second : Pattern)
  | either (first second : Pattern)
  /-- Characters of a class, as many as possible. -/
  | most (p : CodePoint → Bool)
  /-- Characters of a class, as few as possible. -/
  | fewest (p : CodePoint → Bool)

namespace Pattern

/-- The places that a run of characters of a class may reach, the nearest in front. -/
def reaches (p : CodePoint → Bool) (page : Text) (i : Nat) : List Nat :=
  (List.range (Token.runLength p (page.drop i) + 1)).map (i + ·)

def wordAt (page : Text) (i : Nat) : Bool := page[i]?.any isWord

def wordBefore (page : Text) : Nat → Bool
  | 0 => false
  | i + 1 => wordAt page i

/-- The places where a match that begins at a place may end, in the order in which
they are tried. -/
def ends (page : Text) : Pattern → Nat → List Nat
  | empty, i => [i]
  | one p, i => if page[i]?.any p then [i + 1] else []
  | boundary, i => if wordBefore page i != wordAt page i then [i] else []
  | seq first second, i => (first.ends page i).flatMap (second.ends page)
  | either first second, i => first.ends page i ++ second.ends page i
  | most p, i => (reaches p page i).reverse
  | fewest p, i => reaches p page i

/-- The letters of a word, each up to what is alike. -/
def letters (alike : CodePoint → CodePoint → Bool) : Text → Pattern
  | [] => empty
  | w :: word => seq (one (alike w)) (letters alike word)

end Pattern

/-- A regular expression with one group. -/
structure Expression where
  before : Pattern
  group : Pattern
  behind : Pattern

/-- The match at a place: where the group begins and ends, and where the match ends. -/
def Expression.matchAt? (x : Expression) (page : Text) (i : Nat) : Option (Nat × Nat × Nat) :=
  (x.before.ends page i).findSome? fun s => (x.group.ends page s).findSome? fun e =>
    (x.behind.ends page e).head?.map fun r => (s, e, r)

/-- The group of the leftmost match from a place on. No match of the expressions
here is empty, so the search can go on where it ends. -/
def Expression.next (x : Expression) (page : Text) : Next := fun k b r =>
  ∃ i s e, First (fun j => (x.matchAt? page j).isSome = true) k i ∧
    x.matchAt? page i = some (s, e, r) ∧ b = piece page s e

namespace Pattern

variable {page word : Text} {i j k s e r : Nat} {p : CodePoint → Bool}
  {alike : CodePoint → CodePoint → Bool} {R : Nat → Nat → Prop} {first second : Pattern}

/-! ## Where a match may end -/

theorem mem_reaches : j ∈ reaches p page i ↔ Spans p page i j := by
  rw [spans_iff, reaches, List.mem_map]
  constructor
  · intro h
    obtain ⟨n, hn, rfl⟩ := h
    rw [List.mem_range] at hn
    omega
  · intro h
    exact ⟨j - i, by rw [List.mem_range]; omega, by omega⟩

theorem pairwise_reaches : (reaches p page i).Pairwise (· < ·) :=
  List.pairwise_lt_range.map _ fun _ _ h => Nat.add_lt_add_left h i

@[simp]
theorem mem_ends_one : j ∈ (one p).ends page i ↔
    (∃ c, page[i]? = some c ∧ p c = true) ∧ j = i + 1 := by
  rw [ends, ← Option.any_eq_true]
  split <;> simp [*]

@[simp]
theorem mem_ends_boundary : j ∈ boundary.ends page i ↔
    wordBefore page i ≠ wordAt page i ∧ j = i := by
  rw [ends, ← bne_iff_ne]
  split <;> simp [*]

@[simp]
theorem mem_ends_seq : j ∈ (seq first second).ends page i ↔
    ∃ m ∈ first.ends page i, j ∈ second.ends page m := List.mem_flatMap

@[simp]
theorem mem_ends_either : j ∈ (either first second).ends page i ↔
    j ∈ first.ends page i ∨ j ∈ second.ends page i := List.mem_append

@[simp]
theorem mem_ends_most : j ∈ (most p).ends page i ↔ Spans p page i j :=
  List.mem_reverse.trans mem_reaches

@[simp]
theorem mem_ends_fewest : j ∈ (fewest p).ends page i ↔ Spans p page i j := mem_reaches

theorem lettersAt_cons {w : CodePoint} : LettersAt alike (w :: word) page i ↔
    (∃ c, page[i]? = some c ∧ alike w c = true) ∧ LettersAt alike word page (i + 1) := by
  unfold LettersAt
  rw [← List.head?_drop, ← List.drop_drop]
  cases page.drop i with
  | nil => simp
  | cons c rest => simp

@[simp]
theorem mem_ends_letters : j ∈ (letters alike word).ends page i ↔
    LettersAt alike word page i ∧ j = i + word.length := by
  induction word generalizing i with
  | nil => simp [letters, ends, LettersAt]
  | cons w word ih =>
    simp only [letters, mem_ends_seq, mem_ends_one, ih, lettersAt_cons, List.length_cons]
    constructor
    · intro h
      obtain ⟨_, ⟨letter, rfl⟩, others, rfl⟩ := h
      exact ⟨⟨letter, others⟩, by omega⟩
    · intro h
      obtain ⟨⟨letter, others⟩, rfl⟩ := h
      exact ⟨i + 1, ⟨letter, rfl⟩, others, by omega⟩

/-! ## In which order -/

/-- The ends of a match are tried in an order. -/
def Tries (page : Text) (R : Nat → Nat → Prop) (x : Pattern) : Prop :=
  ∀ i, (x.ends page i).Pairwise R

/-- A match has one end at most. -/
abbrev Single (page : Text) (x : Pattern) : Prop := Tries page (fun _ _ => False) x

theorem single_one : Single page (one p) := by
  intro i
  rw [ends]
  split
  · exact List.pairwise_singleton _ _
  · exact .nil

theorem single_boundary : Single page boundary := by
  intro i
  rw [ends]
  split
  · exact List.pairwise_singleton _ _
  · exact .nil

/-- Behind what has one end the order is that of the rest. -/
theorem Tries.seq_of_single (h : Single page first) (h' : Tries page R second) :
    Tries page R (seq first second) := fun i =>
  List.pairwise_flatMap.mpr ⟨fun m _ => h' m, (h i).imp False.elim⟩

theorem single_letters : Single page (letters alike word) := by
  induction word with
  | nil => exact fun i => List.pairwise_singleton _ _
  | cons w word ih => exact single_one.seq_of_single ih

/-- A run is tried in the same order if one more character follows it. -/
theorem Tries.seq_one (h : Tries page R first) (next : ∀ {m n}, R m n → R (m + 1) (n + 1)) :
    Tries page R (seq first (one p)) := by
  intro i
  refine List.pairwise_flatMap.mpr ⟨fun m _ => (single_one m).imp False.elim, ?_⟩
  refine (h i).imp fun before x hx y hy => ?_
  rw [(mem_ends_one.mp hx).2, (mem_ends_one.mp hy).2]
  exact next before

theorem tries_fewest : Tries page (· < ·) (fewest p) := fun _ => pairwise_reaches

theorem tries_most : Tries page (· > ·) (most p) := fun _ =>
  List.pairwise_reverse.mpr pairwise_reaches

/-- In a list in order the first hit is the one that is in front of all others. -/
theorem findSome?_eq_some_iff_of_pairwise {α β : Type} {R : α → α → Prop}
    (irreflexive : ∀ x, ¬ R x x) (asymmetric : ∀ x y, R x y → ¬ R y x) {l : List α}
    (ordered : l.Pairwise R) {f : α → Option β} {b : β} :
    l.findSome? f = some b ↔ ∃ a ∈ l, f a = some b ∧ ∀ x ∈ l, R x a → f x = none := by
  constructor
  · intro h
    obtain ⟨front, a, tail, rfl, hit, misses⟩ := List.findSome?_eq_some_iff.mp h
    refine ⟨a, List.mem_append_right _ List.mem_cons_self, hit, fun x hx earlier => ?_⟩
    rcases List.mem_append.mp hx with hx | hx
    · exact misses x hx
    · rcases List.mem_cons.mp hx with rfl | hx
      · exact absurd earlier (irreflexive _)
      · have later := (List.pairwise_cons.mp (List.pairwise_append.mp ordered).2.1).1 x hx
        exact absurd earlier (asymmetric _ _ later)
  · intro h
    obtain ⟨a, ha, hit, misses⟩ := h
    obtain ⟨front, tail, rfl⟩ := List.append_of_mem ha
    refine List.findSome?_eq_some_iff.mpr ⟨front, a, tail, rfl, hit, fun x hx => ?_⟩
    have earlier := (List.pairwise_append.mp ordered).2.2 x hx a List.mem_cons_self
    exact misses x (List.mem_append_left _ hx) earlier

/-! ## The body and the mark behind it -/

/-- Every character. -/
def any (_ : CodePoint) : Bool := true

theorem spans_any_of_le (le : i ≤ j) (inside : j ≤ page.length) : Spans any page i j :=
  ⟨le, fun _ _ before => ⟨_, List.getElem?_eq_getElem (Nat.lt_of_lt_of_le before inside), rfl⟩⟩

theorem Single.head?_eq_some_iff (h : Single page first) :
    (first.ends page i).head? = some r ↔ r ∈ first.ends page i := by
  have one := h i
  cases hl : first.ends page i with
  | nil => simp
  | cons a rest =>
    rw [hl] at one
    obtain rfl : rest = [] := List.eq_nil_iff_forall_not_mem.mpr (List.pairwise_cons.mp one).1
    simp [eq_comm]

/-- The group that a closing mark ends is the shortest one. -/
theorem findSome?_body (nonempty : word ≠ []) {s' : Nat} :
    (((fewest any).ends page s).findSome? fun e =>
      ((letters alike word).ends page e).head?.map fun r => (s, e, r)) = some (s', e, r) ↔
      s' = s ∧ First (LettersAt alike word page) s e ∧ r = e + word.length := by
  have hit {x : Nat} : ((letters alike word).ends page x).head?.map (fun r => (s, x, r)) =
      .some (s', e, r) ↔ s' = s ∧ x = e ∧ LettersAt alike word page e ∧ r = e + word.length := by
    simp only [Option.map_eq_some_iff, single_letters.head?_eq_some_iff, mem_ends_letters,
      Prod.mk.injEq]
    constructor
    · intro h
      obtain ⟨_, ⟨here, rfl⟩, rfl, rfl, rfl⟩ := h
      exact ⟨rfl, rfl, here, rfl⟩
    · intro h
      obtain ⟨rfl, rfl, here, rfl⟩ := h
      exact ⟨_, ⟨here, rfl⟩, rfl, rfl, rfl⟩
  have miss {x : Nat} : ((letters alike word).ends page x).head?.map (fun r => (s, x, r)) = none ↔
      ¬ LettersAt alike word page x := by
    rw [Option.map_eq_none_iff, Option.eq_none_iff_forall_ne_some]
    simp only [Ne, single_letters.head?_eq_some_iff, mem_ends_letters, not_and]
    exact ⟨fun h here => h _ here rfl, fun h _ here => absurd here h⟩
  rw [findSome?_eq_some_iff_of_pairwise Nat.lt_irrefl (fun _ _ => Nat.lt_asymm) (tries_fewest s)]
  simp only [mem_ends_fewest, hit, miss]
  constructor
  · intro h
    obtain ⟨_, reach, ⟨rfl, rfl, here, rfl⟩, earlier⟩ := h
    refine ⟨rfl, ⟨reach.le, here, fun x hx found => ?_⟩, rfl⟩
    by_contra before
    have inside := found.le_length nonempty
    exact earlier x (spans_any_of_le hx (by omega)) (Nat.lt_of_not_le before) found
  · intro h
    obtain ⟨rfl, finish, rfl⟩ := h
    have inside := finish.here.le_length nonempty
    exact ⟨e, spans_any_of_le finish.le (by omega), ⟨rfl, rfl, finish.here, rfl⟩,
      fun x reach before found => Nat.not_le_of_lt before (finish.least x reach.le found)⟩

/-- The match that counts: its group begins at the first place of which a closing
mark is found. -/
theorem matchAt?_eq_some_iff {before : Pattern} (nonempty : word ≠ []) (irreflexive : ∀ x, ¬ R x x)
    (asymmetric : ∀ x y, R x y → ¬ R y x) (ordered : Tries page R before) :
    (Expression.mk before (fewest any) (letters alike word)).matchAt? page i = some (s, e, r) ↔
      s ∈ before.ends page i ∧ First (LettersAt alike word page) s e ∧ r = e + word.length ∧
        ∀ x ∈ before.ends page i, R x s → ∀ y, ¬ First (LettersAt alike word page) x y := by
  unfold Expression.matchAt?
  rw [findSome?_eq_some_iff_of_pairwise irreflexive asymmetric (ordered i)]
  simp only [Option.eq_none_iff_forall_ne_some, Prod.forall, Ne, findSome?_body nonempty]
  constructor
  · intro h
    obtain ⟨_, begins, ⟨rfl, finish, rfl⟩, earlier⟩ := h
    exact ⟨begins, finish, rfl, fun x hx hr y found => earlier x hx hr x y _ ⟨rfl, found, rfl⟩⟩
  · intro h
    obtain ⟨begins, finish, rfl, earlier⟩ := h
    exact ⟨s, begins, ⟨rfl, finish, rfl⟩, fun x hx hr _ y _ found => earlier x hx hr y found.2.1⟩

end Pattern

namespace Page

open Pattern

variable {page : Text} {i k l s e r : Nat} {b : Block} {found : List Block}

/-! ## Between marks -/

/-- The expression `@startuml\b.*?\n(.*?)@enduml`, where a point is every character
and a letter is of either case. -/
def marksExpression : Expression where
  before := .seq (.letters isLetterOf startMark) (.seq .boundary
    (.seq (.fewest any) (.one (· == .scalar '\n'))))
  group := .fewest any
  behind := .letters isLetterOf endMark

theorem isWord_of_isLetterOf {c : CodePoint} (h : isLetterOf 'l' c = true) : isWord c = true := by
  rcases eq_or_upper_of_isLetterOf (by decide) h with rfl | ⟨d, rfl, _, moved⟩
  · rfl
  · obtain rfl : d = 'L' := Char.ext (by grind)
    rfl

/-- A start mark ends with a word character, so that no other may follow it. -/
theorem boundary_startMark (h : SpelledAt startMark page i) :
    wordBefore page (i + startMark.length) ≠ wordAt page (i + startMark.length) ↔
      ∀ c ∈ page[i + startMark.length]?, isWord c = false := by
  obtain ⟨c, hc, letter⟩ := h.getElem? (n := 8) (by decide)
  have before : wordBefore page (i + startMark.length) = true :=
    (Option.any_eq_true ..).mpr ⟨c, hc, isWord_of_isLetterOf letter⟩
  rw [before, Ne, eq_comm, wordAt, Option.any_eq_true]
  simp

theorem mem_ends_marks : s ∈ marksExpression.before.ends page i ↔
    StartAt page i ∧ ∃ l, i + startMark.length ≤ l ∧ LineEndAt page l ∧ s = l + 1 := by
  simp only [marksExpression, mem_ends_seq, mem_ends_letters, mem_ends_boundary, mem_ends_fewest,
    mem_ends_one, beq_iff_eq, exists_eq_right]
  constructor
  · intro h
    obtain ⟨_, ⟨spelled, rfl⟩, _, ⟨bounded, rfl⟩, l, reach, line, rfl⟩ := h
    exact ⟨⟨spelled, (boundary_startMark spelled).mp bounded⟩, l, reach.le, line, rfl⟩
  · intro h
    obtain ⟨⟨spelled, ends⟩, l, le, line, rfl⟩ := h
    have reach := spans_any_of_le le (Nat.le_of_lt line.lt_length)
    exact ⟨_, ⟨spelled, rfl⟩, _, ⟨(boundary_startMark spelled).mpr ends, rfl⟩, l, reach, line, rfl⟩

theorem tries_marks : Tries page (· < ·) marksExpression.before :=
  single_letters.seq_of_single (single_boundary.seq_of_single
    (tries_fewest.seq_one Nat.succ_lt_succ))

theorem matchAt?_marks : marksExpression.matchAt? page i = some (s, e, r) ↔
    StartAt page i ∧ ∃ l, First (LineEndAt page) (i + startMark.length) l ∧ s = l + 1 ∧
      First (SpelledAt endMark page) s e ∧ r = e + endMark.length := by
  have counts : marksExpression.matchAt? page i = some (s, e, r) ↔
      s ∈ marksExpression.before.ends page i ∧ First (SpelledAt endMark page) s e ∧
        r = e + endMark.length ∧ ∀ x ∈ marksExpression.before.ends page i, x < s →
          ∀ y, ¬ First (SpelledAt endMark page) x y :=
    matchAt?_eq_some_iff (by decide) Nat.lt_irrefl (fun _ _ => Nat.lt_asymm) tries_marks
  rw [counts]
  simp only [mem_ends_marks]
  constructor
  · intro h
    obtain ⟨⟨start, l, le, line, rfl⟩, finish, rfl, earlier⟩ := h
    refine ⟨start, l, ⟨le, line, fun m hm other => ?_⟩, rfl, finish, rfl⟩
    by_contra before
    -- the end mark stands behind a nearer line end as well
    have behind : m + 1 ≤ e := by
      have := finish.le
      omega
    obtain ⟨y, found⟩ := First.exists_of_le behind finish.here
    exact earlier (m + 1) ⟨start, m, hm, other, rfl⟩ (by omega) y found
  · intro h
    obtain ⟨start, l, line, rfl, finish, rfl⟩ := h
    refine ⟨⟨start, l, line.le, line.here, rfl⟩, finish, rfl, fun x hx before => ?_⟩
    obtain ⟨_, m, hm, other, rfl⟩ := hx
    have := line.least m hm other
    omega

/-- Behind an earlier start mark the marks that follow a later one are found too. -/
theorem isSome_matchAt?_marks {j : Nat} (h : marksExpression.matchAt? page i = some (s, e, r))
    (start : StartAt page j) (le : j ≤ i) : (marksExpression.matchAt? page j).isSome = true := by
  obtain ⟨_, l, line, rfl, finish, _⟩ := matchAt?_marks.mp h
  have lineLe := line.le
  have finishLe := finish.le
  obtain ⟨m, near⟩ := First.exists_of_le (k := j + startMark.length) (by omega) line.here
  have behind : m + 1 ≤ e := by
    have := near.least l (by omega) line.here
    omega
  obtain ⟨y, found⟩ := First.exists_of_le behind finish.here
  exact Option.isSome_iff_exists.mpr
    ⟨_, matchAt?_marks.mpr ⟨start, m, near, rfl, found, rfl⟩⟩

theorem next_marks : marksExpression.next page k b r ↔ nextMarked page k b r := by
  constructor
  · intro h
    obtain ⟨i, s, e, first, here, rfl⟩ := h
    obtain ⟨start, l, line, rfl, finish, rfl⟩ := matchAt?_marks.mp here
    refine ⟨i, l, e, ⟨⟨first.le, start, fun j hj other => ?_⟩, line, finish⟩, rfl, rfl⟩
    by_contra before
    have earlier := isSome_matchAt?_marks here other (by omega)
    exact before (first.least j hj earlier)
  · intro h
    obtain ⟨i, l, e, ⟨start, line, finish⟩, rfl, rfl⟩ := h
    have here := matchAt?_marks.mpr ⟨start.here, l, line, rfl, finish, rfl⟩
    refine ⟨i, l + 1, e, ⟨start.le, Option.isSome_iff_exists.mpr ⟨_, here⟩, fun j hj other => ?_⟩,
      here, rfl⟩
    obtain ⟨⟨_, _, _⟩, other⟩ := Option.isSome_iff_exists.mp other
    exact start.least j hj (matchAt?_marks.mp other).1

/-! ## In fences -/

/-- The expression with three backticks, `(?:plantuml|puml)\s*\n(.*?)`, and three
backticks again. -/
def fenceExpression : Expression where
  before := .seq (.letters (· == ·) fence) (.seq
    (.either (.letters isLetterOf "plantuml") (.letters isLetterOf "puml"))
    (.seq (.most isBlank) (.one (· == .scalar '\n'))))
  group := .fewest any
  behind := .letters (· == ·) fence

theorem lettersAt_fence : LettersAt (· == ·) fence page i ↔ TripleAt page i := by
  unfold LettersAt TripleAt
  simp only [beq_iff_eq, List.forall₂_eq_eq_eq]
  exact List.prefix_iff_eq_take.symm

/-- A fence may open at a place, and its body begins behind some line end among the
blanks. -/
def MayOpen (page : Text) (i s : Nat) : Prop :=
  TripleAt page i ∧ ∃ language ∈ languages, SpelledAt language page (i + fence.length) ∧
    ∃ l, LineEndAt page l ∧ Spans isBlank page (i + fence.length + language.length) l ∧ s = l + 1

theorem mem_ends_fence : s ∈ fenceExpression.before.ends page i ↔ MayOpen page i s := by
  simp only [fenceExpression, mem_ends_seq, mem_ends_letters, mem_ends_either, mem_ends_most,
    mem_ends_one, beq_iff_eq, exists_eq_right, lettersAt_fence, MayOpen, languages, List.mem_cons,
    List.not_mem_nil, or_false]
  constructor
  · intro h
    obtain ⟨_, ⟨triple, rfl⟩, _, named, l, reach, line, rfl⟩ := h
    rcases named with ⟨spelled, rfl⟩ | ⟨spelled, rfl⟩
    · exact ⟨triple, _, .inl rfl, spelled, l, line, reach, rfl⟩
    · exact ⟨triple, _, .inr rfl, spelled, l, line, reach, rfl⟩
  · intro h
    obtain ⟨triple, _, named, spelled, l, line, reach, rfl⟩ := h
    refine ⟨_, ⟨triple, rfl⟩, _, ?_, l, reach, line, rfl⟩
    rcases named with rfl | rfl
    · exact .inl ⟨spelled, rfl⟩
    · exact .inr ⟨spelled, rfl⟩

theorem single_languages : Single page
    (.either (.letters isLetterOf "plantuml") (.letters isLetterOf "puml")) := by
  intro i
  refine List.pairwise_append.mpr ⟨single_letters i, single_letters i, fun x hx y hy => ?_⟩
  exact languages_exclusive (mem_ends_letters.mp hx).1 (mem_ends_letters.mp hy).1

theorem tries_fence : Tries page (· > ·) fenceExpression.before :=
  single_letters.seq_of_single (single_languages.seq_of_single
    (tries_most.seq_one Nat.succ_lt_succ))

/-- Behind the backticks of an opening there are letters and blanks only. -/
theorem MayOpen.getElem?_ne (h : MayOpen page i s) {c : CodePoint}
    (unlettered : ∀ language ∈ languages, ∀ w ∈ language, isLetterOf w c = false)
    (solid : isBlank c = false) {x : Nat} (hx : i + fence.length ≤ x) (before : x < s) :
    page[x]? ≠ some c := by
  obtain ⟨_, language, mem, spelled, l, line, reach, rfl⟩ := h
  by_cases inside : x < i + fence.length + language.length
  · exact spelled.getElem?_ne (unlettered language mem) hx inside
  · intro here
    obtain ⟨d, hd, blank⟩ := (reach.succ line isBlank_newline).all x (by omega) before
    rw [here] at hd
    obtain rfl := Option.some.inj hd
    rw [solid] at blank
    cases blank

theorem TripleAt.backtick (h : TripleAt page i) : page[i]? = some (.scalar '\x60') := by
  have first := List.prefix_iff_getElem?.mp h 0 (by decide)
  rwa [List.getElem?_drop] at first

theorem MayOpen.not_tripleAt (h : MayOpen page i s) {x : Nat} (hx : i + fence.length ≤ x)
    (before : x < s) : ¬ TripleAt page x := fun triple =>
  h.getElem?_ne (by decide) (by decide) hx before triple.backtick

theorem FenceAt.mayOpen (h : FenceAt page i s) : MayOpen page i s := by
  obtain ⟨triple, language, mem, spelled, l, last, rfl⟩ := h
  exact ⟨triple, language, mem, spelled, l, last.here, last.blanks, rfl⟩

theorem language_unique {word other : Text} (mem : word ∈ languages) (mem' : other ∈ languages)
    (h : SpelledAt word page i) (h' : SpelledAt other page i) : word = other := by
  simp only [languages, List.mem_cons, List.not_mem_nil, or_false] at mem mem'
  rcases mem with rfl | rfl
  · rcases mem' with rfl | rfl
    · rfl
    · exact absurd h' (languages_exclusive h)
  · rcases mem' with rfl | rfl
    · exact absurd h (languages_exclusive h')
    · rfl

theorem matchAt?_fence : fenceExpression.matchAt? page i = some (s, e, r) ↔
    FenceAt page i s ∧ First (TripleAt page) s e ∧ r = e + fence.length := by
  have triples : LettersAt (· == ·) fence page = TripleAt page :=
    funext fun _ => propext lettersAt_fence
  have counts : fenceExpression.matchAt? page i = some (s, e, r) ↔
      s ∈ fenceExpression.before.ends page i ∧ First (TripleAt page) s e ∧ r = e + fence.length ∧
        ∀ x ∈ fenceExpression.before.ends page i, x > s → ∀ y, ¬ First (TripleAt page) x y :=
    triples ▸ matchAt?_eq_some_iff (by decide) Nat.lt_irrefl (fun _ _ => Nat.lt_asymm) tries_fence
  rw [counts]
  simp only [mem_ends_fence]
  constructor
  · intro h
    obtain ⟨⟨triple, language, mem, spelled, l, line, reach, rfl⟩, finish, rfl, earlier⟩ := h
    refine ⟨⟨triple, language, mem, spelled, l, ⟨line, reach, fun m hm further => ?_⟩, rfl⟩, finish,
      rfl⟩
    by_contra behind
    -- the closing backticks are no blanks, so they stand behind the further line end as well
    have opens : MayOpen page i (m + 1) := ⟨triple, language, mem, spelled, m, hm, further, rfl⟩
    have le := reach.le
    have finishLe := finish.le
    have closes : m + 1 ≤ e := by
      by_contra inside
      exact opens.not_tripleAt (by omega) (Nat.lt_of_not_le inside) finish.here
    obtain ⟨y, found⟩ := First.exists_of_le closes finish.here
    exact earlier (m + 1) opens (by omega) y found
  · intro h
    obtain ⟨opens, finish, rfl⟩ := h
    refine ⟨opens.mayOpen, finish, rfl, fun x hx behind => ?_⟩
    obtain ⟨_, language, mem, spelled, l, last, rfl⟩ := opens
    obtain ⟨_, other, mem', spelled', m, hm, further, rfl⟩ := hx
    obtain rfl := language_unique mem mem' spelled spelled'
    have := last.last m hm further
    omega

/-- What closes a fence can close an earlier one that opens. -/
theorem isSome_matchAt?_fence {j t : Nat} (h : fenceExpression.matchAt? page i = some (s, e, r))
    (opens : FenceAt page j t) (le : j ≤ i) : (fenceExpression.matchAt? page j).isSome = true := by
  obtain ⟨later, finish, _⟩ := matchAt?_fence.mp h
  have laterLe := later.le
  have finishLe := finish.le
  have closes : t ≤ e := by
    by_contra inside
    exact opens.mayOpen.not_tripleAt (by omega) (Nat.lt_of_not_le inside) finish.here
  obtain ⟨y, found⟩ := First.exists_of_le closes finish.here
  exact Option.isSome_iff_exists.mpr ⟨_, matchAt?_fence.mpr ⟨opens, found, rfl⟩⟩

theorem next_fence : fenceExpression.next page k b r ↔ nextFenced page k b r := by
  constructor
  · intro h
    obtain ⟨i, s, e, first, here, rfl⟩ := h
    obtain ⟨opens, finish, rfl⟩ := matchAt?_fence.mp here
    refine ⟨i, s, e, ⟨⟨first.le, ⟨s, opens⟩, fun j hj other => ?_⟩, opens, finish⟩, rfl, rfl⟩
    obtain ⟨t, other⟩ := other
    by_contra before
    have earlier := isSome_matchAt?_fence here other (by omega)
    exact before (first.least j hj earlier)
  · intro h
    obtain ⟨i, s, e, ⟨start, opens, finish⟩, rfl, rfl⟩ := h
    have here := matchAt?_fence.mpr ⟨opens, finish, rfl⟩
    refine ⟨i, s, e, ⟨start.le, Option.isSome_iff_exists.mpr ⟨_, here⟩, fun j hj other => ?_⟩,
      here, rfl⟩
    obtain ⟨⟨_, _, _⟩, other⟩ := Option.isSome_iff_exists.mp other
    exact start.least j hj ⟨_, (matchAt?_fence.mp other).1⟩

/-! ## The blocks of a page -/

theorem scan_congr {next other : Next} (same : ∀ k b r, next k b r ↔ other k b r) :
    Scan next k found ↔ Scan other k found := by
  obtain rfl : next = other := funext fun k => funext fun b => funext fun r => propext (same k b r)
  exact Iff.rfl

/-- A word within a piece of a page stands at a place of the page. -/
theorem exists_lettersAt_of_infix {alike : CodePoint → CodePoint → Bool} {word t : Text}
    (nonempty : word ≠ []) (spelled : List.Forall₂ (fun w c => alike w c = true) word t)
    (inside : t <:+: (piece page s e).text) : ∃ x, s ≤ x ∧ x < e ∧ LettersAt alike word page x := by
  obtain ⟨before, behind, cut⟩ := inside
  change before ++ t ++ behind = (page.drop s).take (e - s) at cut
  have length := spelled.length_eq
  have pos := List.length_pos_of_ne_nil nonempty
  have short := congrArg List.length cut
  rw [List.length_append, List.length_append, List.length_take] at short
  refine ⟨s + before.length, Nat.le_add_right _ _, by omega, ?_⟩
  have whole : page.drop s = before ++ (t ++ (behind ++ (page.drop s).drop (e - s))) := by
    rw [← List.append_assoc, ← List.append_assoc, cut, List.take_append_drop]
  unfold LettersAt
  rwa [← List.drop_drop, whole, List.drop_left, length, List.take_left]

theorem not_mentions_of_mem_marked (h : b ∈ marked page) : ¬ Mentions endMark b.text := by
  obtain ⟨_, _, i, l, e, ⟨_, _, finish⟩, rfl, _⟩ := (scan_marked_iff.mpr rfl).exists_next b h
  intro mentions
  obtain ⟨t, inside, spelled⟩ := mentions
  obtain ⟨x, hx, before, found⟩ := exists_lettersAt_of_infix (by decide) spelled inside
  exact Nat.not_le_of_lt before (finish.least x hx found)

theorem not_infix_of_mem_fenced (h : b ∈ fenced page) : ¬ fence <:+: b.text := by
  obtain ⟨_, _, i, s, e, ⟨_, _, finish⟩, rfl, _⟩ := (scan_fenced_iff.mpr rfl).exists_next b h
  intro inside
  have same : List.Forall₂ (fun w c : CodePoint => (w == c) = true) fence fence :=
    List.forall₂_same.mpr fun _ _ => beq_self_eq_true _
  obtain ⟨x, hx, before, found⟩ := exists_lettersAt_of_infix (by decide) same inside
  exact Nat.not_le_of_lt before (finish.least x hx (lettersAt_fence.mp found))

/-- The blocks of a page are those between marks, then those in fences. Those of a
style are what a scan from left to right finds, by the leftmost marks of each kind,
and what the leftmost matches of an expression are, with the first way to match that
backtracking comes to. No body holds its closing mark, and the bodies of a style are
pieces of the page one behind the other. -/
theorem blocks_eq_scan (page : Text) : blocks page = marked page ++ fenced page ∧
    (∀ found, Scan (nextMarked page) 0 found ↔ found = marked page) ∧
    (∀ found, Scan (nextFenced page) 0 found ↔ found = fenced page) ∧
    (∀ found, Scan (marksExpression.next page) 0 found ↔ found = marked page) ∧
    (∀ found, Scan (fenceExpression.next page) 0 found ↔ found = fenced page) ∧
    (∀ b ∈ marked page, ¬ Mentions endMark b.text) ∧
    (∀ b ∈ fenced page, ¬ fence <:+: b.text) ∧
    ∀ style ∈ [marked page, fenced page],
      (∀ b ∈ style, b = piece page b.offset b.finish ∧ b.finish ≤ page.length) ∧
        style.Pairwise fun b c => b.finish ≤ c.offset := by
  have pieces {next : Next} {style : List Block} (cuts : next.Cuts page)
      (scan : Scan next 0 style) :
      (∀ b ∈ style, b = piece page b.offset b.finish ∧ b.finish ≤ page.length) ∧
        style.Pairwise fun b c => b.finish ≤ c.offset :=
    ⟨scan.eq_piece cuts, scan.pairwise cuts⟩
  refine ⟨rfl, fun _ => scan_marked_iff, fun _ => scan_fenced_iff, fun _ => ?_, fun _ => ?_,
    fun _ => not_mentions_of_mem_marked, fun _ => not_infix_of_mem_fenced, ?_⟩
  · exact (scan_congr fun _ _ _ => next_marks).trans scan_marked_iff
  · exact (scan_congr fun _ _ _ => next_fence).trans scan_fenced_iff
  · simp only [List.forall_mem_cons]
    exact ⟨pieces (cuts_nextMarked page) (scan_marked_iff.mpr rfl),
      pieces (cuts_nextFenced page) (scan_fenced_iff.mpr rfl), nofun⟩

/-- A header may hold an end mark, and the body in a fence begins behind the last
line end of the opening. -/
theorem blocks_eq_scan_of_header : ∃ page : Text,
    page = ("@startuml @enduml\nA@ENDUML\x60\x60\x60puml \n\t\n B\x60\x60\x60" : String) ∧
    (∀ found, Scan (marksExpression.next page) 0 found ↔ found = [⟨18, "A"⟩]) ∧
    (∀ found, Scan (nextFenced page) 0 found ↔ found = [⟨37, " B"⟩]) ∧
    blocks page = [⟨18, "A"⟩, ⟨37, " B"⟩] := by
  let page : Text := ("@startuml @enduml\nA@ENDUML\x60\x60\x60puml \n\t\n B\x60\x60\x60" : String)
  have between : marked page = [⟨18, "A"⟩] := by decide +kernel
  have inside : fenced page = [⟨37, " B"⟩] := by decide +kernel
  obtain ⟨all, _, fences, marks, _⟩ := blocks_eq_scan page
  rw [between, inside] at all
  exact ⟨page, rfl, between ▸ marks, inside ▸ fences, all⟩

end Page
end ClassGraph
