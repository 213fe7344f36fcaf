import ClassGraph.Proofs.Excerpt
import Mathlib.Data.Nat.Find

/-! # Scanning a page

Where the blocks of a page begin and end can be told by places alone. Each mark of a
block is the leftmost of its kind behind the mark before it: behind the opening of
a block stands its body, up to the first closing mark. The search goes on behind
that and stops where one of the marks is missing. So the blocks of a style are
pieces of the page, one behind the other.
-/

namespace ClassGraph

open Text

namespace Page

variable {page : Text} {k i j s e r : Nat} {b : Block} {found : List Block}

/-! ## Places -/

/-- The leftmost place from `k` on of which something holds. -/
structure First (p : Nat → Prop) (k i : Nat) : Prop where
  le : k ≤ i
  here : p i
  least : ∀ j, k ≤ j → p j → i ≤ j

theorem First.exists_of_le {p : Nat → Prop} (le : k ≤ j) (h : p j) : ∃ i, First p k i := by
  classical
  have any : ∃ i, k ≤ i ∧ p i := ⟨j, le, h⟩
  have spec := Nat.find_spec any
  exact ⟨Nat.find any, spec.1, spec.2, fun m hm hp => Nat.find_min' any ⟨hm, hp⟩⟩

/-- A search may begin behind places of which nothing holds. -/
theorem First.skip_iff {p : Nat → Prop} (le : k ≤ j) (none : ∀ x, k ≤ x → x < j → ¬ p x) :
    First p k i ↔ First p j i := by
  constructor
  · intro h
    have behind : j ≤ i := by
      by_contra before
      exact none i h.le (Nat.lt_of_not_le before) h.here
    exact ⟨behind, h.here, fun x hx => h.least x (le.trans hx)⟩
  · intro h
    refine ⟨le.trans h.le, h.here, fun x hx hp => ?_⟩
    by_contra before
    have behind : j ≤ x := by
      by_contra inside
      exact none x hx (Nat.lt_of_not_le inside) hp
    exact before (h.least x behind hp)

/-- The characters from a place up to another are there, and all of a class. -/
structure Spans (p : CodePoint → Bool) (page : Text) (i j : Nat) : Prop where
  le : i ≤ j
  all : ∀ x, i ≤ x → x < j → ∃ c, page[x]? = some c ∧ p c = true

theorem le_runLength_iff {p : CodePoint → Bool} {n : Nat} {cs : Text} :
    n ≤ Token.runLength p cs ↔ ∀ x < n, ∃ c, cs[x]? = some c ∧ p c = true := by
  induction cs generalizing n with
  | nil =>
    cases n with
    | zero => simp
    | succ n =>
      refine iff_of_false (Nat.not_succ_le_zero n) fun h => ?_
      obtain ⟨c, hc, _⟩ := h 0 (Nat.succ_pos n)
      cases hc
  | cons c cs ih =>
    cases n with
    | zero => simp
    | succ n =>
      rw [Nat.forall_lt_succ_left]
      simp only [List.getElem?_cons_zero, List.getElem?_cons_succ, Option.some.injEq,
        exists_eq_left']
      by_cases hc : p c = true
      · rw [Token.runLength_cons_of_pos hc, Nat.add_comm n, Nat.add_le_add_iff_left, ih]
        exact (and_iff_right hc).symm
      · rw [Token.runLength_eq_zero_iff.mpr (by simpa using hc)]
        simp [hc]

theorem spans_iff {p : CodePoint → Bool} :
    Spans p page i j ↔ i ≤ j ∧ j - i ≤ Token.runLength p (page.drop i) := by
  rw [le_runLength_iff]
  simp only [List.getElem?_drop]
  constructor
  · intro h
    exact ⟨h.le, fun x hx => h.all (i + x) (Nat.le_add_right _ _) (by omega)⟩
  · intro h
    refine ⟨h.1, fun x hx before => ?_⟩
    have inside := h.2 (x - i) (by omega)
    rwa [Nat.add_sub_cancel' hx] at inside

theorem Spans.succ {p : CodePoint → Bool} (h : Spans p page i j) {c : CodePoint}
    (here : page[j]? = some c) (hc : p c = true) : Spans p page i (j + 1) := by
  refine ⟨h.le.trans (Nat.le_succ j), fun x hx before => ?_⟩
  rcases Nat.lt_succ_iff_lt_or_eq.mp before with before | rfl
  · exact h.all x hx before
  · exact ⟨c, here, hc⟩

/-! ## Searching from a place on -/

theorem breakWhere_drop_eq_some_iff {search : Text → Bool} {p : Nat → Prop}
    (here : ∀ x, search (page.drop x) = true ↔ p x) (none : search [] = false)
    {before after : Text} : breakWhere search (page.drop k) = some (before, after) ↔
      ∃ i, First p k i ∧ before = (page.drop k).take (i - k) ∧ after = page.drop i := by
  obtain rfl : (fun x => search (page.drop x) = true) = p := funext fun x => propext (here x)
  rw [breakWhere_eq_some_iff]
  constructor
  · intro h
    obtain ⟨cut, here, earlier⟩ := h
    have rest : page.drop (k + before.length) = after := by
      rw [← List.drop_drop, cut, List.drop_left]
    refine ⟨k + before.length, ⟨Nat.le_add_right _ _, rest ▸ here, fun x hx found => ?_⟩, ?_,
      rest.symm⟩
    · by_contra inside
      have behind : before.drop (x - k) ++ after = page.drop x := by
        have split := congrArg (List.drop (x - k)) cut
        rw [List.drop_drop, Nat.add_sub_cancel' hx, List.drop_append_of_le_length (by omega)]
          at split
        exact split.symm
      have missed := earlier (before.drop (x - k))
        (List.ne_nil_of_length_pos (by rw [List.length_drop]; omega)) (List.drop_suffix _ _)
      rw [behind, found] at missed
      cases missed
    · rw [Nat.add_sub_cancel_left, cut, List.take_left]
  · intro h
    obtain ⟨i, first, rfl, rfl⟩ := h
    have inside : i < page.length := by
      by_contra beyond
      have here := first.here
      rw [List.drop_eq_nil_of_le (Nat.le_of_not_lt beyond), none] at here
      cases here
    have le := first.le
    have cut : page.drop k = (page.drop k).take (i - k) ++ page.drop i := by
      have rest : (page.drop k).drop (i - k) = page.drop i := by
        rw [List.drop_drop, Nat.add_sub_cancel' le]
      rw [← rest, List.take_append_drop]
    refine ⟨cut, first.here, fun s hne hs => ?_⟩
    by_contra found
    obtain ⟨front, hf⟩ := hs
    have length := congrArg List.length hf
    rw [List.length_append, List.length_take, List.length_drop] at length
    have tail : page.drop (k + front.length) = s ++ page.drop i := by
      rw [← List.drop_drop, cut, ← hf, List.append_assoc, List.drop_left]
    have pos := List.length_pos_of_ne_nil hne
    have := first.least (k + front.length) (Nat.le_add_right _ _) (by
      rw [tail]
      exact Bool.not_eq_false _ ▸ found)
    omega

/-! ## All blocks of a style -/

/-- The place behind the last character of a block. -/
def Block.finish (b : Block) : Nat := b.offset + b.text.length

/-- The piece of a page between two places. -/
def piece (page : Text) (s e : Nat) : Block := ⟨s, (page.drop s).take (e - s)⟩

/-- How a search goes on from a place: to a block, and to a place behind it. -/
abbrev Next := Nat → Block → Nat → Prop

/-- The blocks that are found from a place on, one behind the other. -/
inductive Scan (next : Next) : Nat → List Block → Prop
  | stop {k : Nat} (none : ∀ b r, ¬ next k b r) : Scan next k []
  | more {k r : Nat} {b : Block} {found : List Block} (first : next k b r)
      (others : Scan next r found) : Scan next k (b :: found)

/-- A search finds pieces of the page and goes on behind them. -/
def Next.Cuts (next : Next) (page : Text) : Prop := ∀ {k b r}, next k b r →
  ∃ s e, b = piece page s e ∧ k ≤ s ∧ s ≤ e ∧ e ≤ r ∧ r ≤ page.length

theorem finish_piece (le : s ≤ e) (inside : e ≤ page.length) : (piece page s e).finish = e := by
  show s + ((page.drop s).take (e - s)).length = e
  rw [List.length_take, List.length_drop]
  omega

theorem Scan.exists_next {next : Next} (h : Scan next k found) :
    ∀ b ∈ found, ∃ k r, next k b r := by
  induction h with
  | stop => nofun
  | more first _ ih => exact List.forall_mem_cons.mpr ⟨⟨_, _, first⟩, ih⟩

theorem Scan.le_offset {next : Next} (cuts : next.Cuts page) (h : Scan next k found) :
    ∀ b ∈ found, k ≤ b.offset := by
  induction h with
  | stop => nofun
  | more first _ ih =>
    obtain ⟨s, e, rfl, hs, hse, her, _⟩ := cuts first
    exact List.forall_mem_cons.mpr ⟨hs, fun c hc => (hs.trans hse).trans (her.trans (ih c hc))⟩

theorem Scan.eq_piece {next : Next} (cuts : next.Cuts page) (h : Scan next k found) :
    ∀ b ∈ found, b = piece page b.offset b.finish ∧ b.finish ≤ page.length := by
  intro b hb
  obtain ⟨_, _, first⟩ := h.exists_next b hb
  obtain ⟨s, e, rfl, _, hse, her, hr⟩ := cuts first
  rw [finish_piece hse (her.trans hr)]
  exact ⟨rfl, her.trans hr⟩

theorem Scan.pairwise {next : Next} (cuts : next.Cuts page) (h : Scan next k found) :
    found.Pairwise fun b c => b.finish ≤ c.offset := by
  induction h with
  | stop => exact .nil
  | more first others ih =>
    obtain ⟨s, e, rfl, _, hse, her, hr⟩ := cuts first
    refine .cons (fun c hc => ?_) ih
    rw [finish_piece hse (her.trans hr)]
    exact her.trans (others.le_offset cuts c hc)

/-- A cut of the rest of a page is what a search finds from there on. -/
def Agrees (cut : Text → Option Cut) (next : Next) (page : Text) : Prop := ∀ k c,
  cut (page.drop k) = some c ↔
    ∃ b r, next k b r ∧ c = ⟨b.offset - k, b.text, page.drop r⟩

theorem Agrees.unique {cut : Text → Option Cut} {next : Next} (agrees : Agrees cut next page)
    (cuts : next.Cuts page) {c : Block} {q : Nat} (hb : next k b r) (hc : next k c q) :
    b = c ∧ r = q := by
  have same := ((agrees k _).mpr ⟨b, r, hb, rfl⟩).symm.trans ((agrees k _).mpr ⟨c, q, hc, rfl⟩)
  obtain ⟨offset, text, rest⟩ := Cut.mk.inj (Option.some.inj same)
  obtain ⟨s, e, rfl, hs, _, _, hr⟩ := cuts hb
  obtain ⟨s', e', rfl, hs', _, _, hq⟩ := cuts hc
  have lengths := congrArg List.length rest
  rw [List.length_drop, List.length_drop] at lengths
  have start : s = s' := by
    change s - k = s' - k at offset
    omega
  exact ⟨congrArg₂ Block.mk start text, by omega⟩

theorem scan_iff_eq_collect {cut : Text → Option Cut} {next : Next} (shortens : Shortens cut)
    (cuts : next.Cuts page) (agrees : Agrees cut next page) :
    Scan next k found ↔ found = collect cut shortens k (page.drop k) := by
  induction hn : (page.drop k).length using Nat.strongRecOn generalizing k found with
  | ind n ih =>
    rw [collect]
    split
    · rename_i hc
      have none (b : Block) (r : Nat) : ¬ next k b r := fun first =>
        Option.some_ne_none _ (((agrees k _).mpr ⟨b, r, first, rfl⟩).symm.trans hc)
      constructor
      · intro h
        cases h with
        | stop => rfl
        | more first _ => exact absurd first (none _ _)
      · intro h
        exact h ▸ .stop none
    · rename_i hc
      obtain ⟨b, r, first, rfl⟩ := (agrees k _).mp hc
      have shorter : (page.drop r).length < n := hn ▸ shortens _ _ hc
      obtain ⟨s, e, hb, hs, hse, her, hr⟩ := cuts first
      have le : k ≤ b.offset := hb ▸ hs
      have behind : k + ((page.drop k).length - (page.drop r).length) = r := by
        rw [List.length_drop, List.length_drop]
        omega
      rw [Nat.add_sub_cancel' le, behind]
      constructor
      · intro h
        cases h with
        | stop none => exact absurd first (none _ _)
        | more again others =>
          obtain ⟨rfl, rfl⟩ := agrees.unique cuts first again
          exact congrArg (b :: ·) ((ih _ shorter rfl).mp others)
      · intro h
        exact h ▸ .more first ((ih _ shorter rfl).mpr rfl)

/-! ## Words at places -/

/-- A letter of either case is the small one or a capital. -/
theorem eq_or_upper_of_isLetterOf {small : Char} {c : CodePoint} (other : small ≠ 's')
    (h : isLetterOf (.scalar small) c = true) :
    c = .scalar small ∨ ∃ d : Char, c = .scalar d ∧ 65 ≤ d.val ∧ d.val + 32 = small.val := by
  cases c with
  | surrogate => cases h
  | scalar c =>
    have lower : c.toLower = small := by simpa [isLetterOf, other] using h
    unfold Char.toLower at lower
    split at lower
    · exact .inr ⟨c, rfl, And.left ‹_›, congrArg Char.val lower⟩
    · exact .inl (congrArg _ lower)

/-- The letters of a word stand at a place, each up to what is alike. -/
def LettersAt (alike : CodePoint → CodePoint → Bool) (word page : Text) (i : Nat) : Prop :=
  List.Forall₂ (fun w c => alike w c = true) word ((page.drop i).take word.length)

/-- The word stands at a place, each letter in either case. -/
abbrev SpelledAt (word page : Text) (i : Nat) : Prop := LettersAt isLetterOf word page i

def LineEndAt (page : Text) (i : Nat) : Prop := page[i]? = some (.scalar '\n')

variable {word : Text} {alike : CodePoint → CodePoint → Bool}

theorem stripAnyCase?_drop_eq_some_iff {rest : Text} :
    stripAnyCase? word (page.drop i) = some rest ↔
      SpelledAt word page i ∧ rest = page.drop (i + word.length) := by
  rw [stripAnyCase?_eq_some_iff]
  constructor
  · intro h
    obtain ⟨s, cut, spelled⟩ := h
    have length : word.length = s.length := spelled.length_eq
    constructor
    · unfold SpelledAt LettersAt
      rwa [cut, length, List.take_left]
    · rw [← List.drop_drop, cut, length, List.drop_left]
  · intro h
    obtain ⟨spelled, rfl⟩ := h
    refine ⟨_, ?_, spelled⟩
    rw [← List.drop_drop, List.take_append_drop]

theorem LettersAt.getElem? (h : LettersAt alike word page i) {n : Nat} (hn : n < word.length) :
    ∃ c, page[i + n]? = some c ∧ alike word[n] c = true := by
  have length := h.length_eq
  have within : n < ((page.drop i).take word.length).length := length ▸ hn
  have letter := List.Forall₂.get h hn within
  refine ⟨_, ?_, letter⟩
  rw [← List.getElem?_drop, ← List.getElem?_take_of_lt hn]
  exact List.getElem?_eq_getElem within

theorem LettersAt.le_length (h : LettersAt alike word page i) (nonempty : word ≠ []) :
    i + word.length ≤ page.length := by
  have length := h.length_eq
  have pos := List.length_pos_of_ne_nil nonempty
  rw [List.length_take, List.length_drop] at length
  omega

theorem LineEndAt.lt_length (h : LineEndAt page i) : i < page.length :=
  (List.getElem?_eq_some_iff.mp h).1

/-- Within a word no character stands that none of its letters is like. -/
theorem LettersAt.getElem?_ne (h : LettersAt alike word page i) {c : CodePoint}
    (other : ∀ w ∈ word, alike w c = false) {x : Nat} (hx : i ≤ x) (before : x < i + word.length) :
    page[x]? ≠ some c := by
  intro here
  obtain ⟨d, hd, letter⟩ := h.getElem? (n := x - i) (by omega)
  rw [Nat.add_sub_cancel' hx, here] at hd
  obtain rfl := Option.some.inj hd
  rw [other _ (List.getElem_mem _)] at letter
  cases letter

theorem splitAtWord_line_drop_eq_some_iff {line inside : Text} :
    splitAtWord ("\n" : Text) (page.drop k) = some (line, inside) ↔
      ∃ l, First (LineEndAt page) k l ∧ line = (page.drop k).take (l - k) ∧
        inside = page.drop (l + 1) := by
  have here (x : Nat) : startsWith ("\n" : Text) (page.drop x) = true ↔ LineEndAt page x := by
    rw [startsWith_iff, LineEndAt, ← List.head?_drop]
    cases page.drop x with
    | nil => exact iff_of_false (fun h => nomatch List.prefix_nil.mp h) nofun
    | cons c rest =>
      rw [List.head?_cons, Option.some.injEq, eq_comm]
      exact List.cons_prefix_cons.trans (and_iff_left (List.nil_prefix))
  unfold splitAtWord
  simp only [Option.map_eq_some_iff, Prod.exists, Prod.mk.injEq,
    breakWhere_drop_eq_some_iff here rfl]
  constructor
  · intro h
    obtain ⟨_, _, ⟨l, first, rfl, rfl⟩, rfl, rfl⟩ := h
    exact ⟨l, first, rfl, List.drop_drop⟩
  · intro h
    obtain ⟨l, first, rfl, rfl⟩ := h
    exact ⟨_, _, ⟨l, first, rfl, rfl⟩, rfl, List.drop_drop⟩

/-! ## Between marks -/

/-- A start mark stands at a place, and no word character behind it. -/
structure StartAt (page : Text) (i : Nat) : Prop where
  spelled : SpelledAt startMark page i
  ends : ∀ c ∈ page[i + startMark.length]?, isWord c = false

/-- The next diagram between marks: the leftmost start mark from a place on, the
first line end behind it, and the first end mark behind that. -/
structure MarkedAt (page : Text) (k i l e : Nat) : Prop where
  start : First (StartAt page) k i
  line : First (LineEndAt page) (i + startMark.length) l
  finish : First (SpelledAt endMark page) (l + 1) e

def nextMarked (page : Text) : Next := fun k b r =>
  ∃ i l e, MarkedAt page k i l e ∧ b = piece page (l + 1) e ∧ r = e + endMark.length

theorem cuts_nextMarked (page : Text) : (nextMarked page).Cuts page := by
  intro k b r h
  obtain ⟨i, l, e, at_, rfl, rfl⟩ := h
  have start := at_.start.le
  have line := at_.line.le
  have finish := at_.finish.le
  have inside := at_.finish.here.le_length (by decide)
  exact ⟨l + 1, e, rfl, by omega, finish, Nat.le_add_right _ _, inside⟩

theorem atWordEnd_drop : atWordEnd (page.drop i) = true ↔ ∀ c ∈ page[i]?, isWord c = false := by
  rw [Token.atWordEnd_iff, Token.runLength_eq_zero_iff, List.head?_drop]

theorem atStart_drop : atStart (page.drop i) = true ↔ StartAt page i := by
  unfold atStart
  constructor
  · intro h
    split at h
    · rename_i rest hr
      obtain ⟨spelled, rfl⟩ := stripAnyCase?_drop_eq_some_iff.mp hr
      exact ⟨spelled, atWordEnd_drop.mp h⟩
    · cases h
  · intro h
    rw [stripAnyCase?_drop_eq_some_iff.mpr ⟨h.spelled, rfl⟩]
    exact atWordEnd_drop.mpr h.ends

theorem atEnd_drop : atEnd (page.drop i) = true ↔ SpelledAt endMark page i := by
  unfold atEnd
  rw [Option.isSome_iff_exists]
  simp only [stripAnyCase?_drop_eq_some_iff, exists_and_left, exists_eq, and_true]

theorem cutMarked_eq_some_iff {cs : Text} {c : Cut} : cutMarked cs = some c ↔
    ∃ before opener line inside body closer, breakWhere atStart cs = some (before, opener) ∧
      splitAtWord ("\n" : Text) opener = some (line, inside) ∧
      breakWhere atEnd inside = some (body, closer) ∧
      c = ⟨before.length + line.length + 1, body, closer.drop endMark.length⟩ := by
  unfold cutMarked
  constructor
  · intro h
    split at h
    · cases h
    · rename_i before opener ho
      split at h
      · cases h
      · rename_i line inside hl
        split at h
        · cases h
        · rename_i body closer hc
          exact ⟨before, opener, line, inside, body, closer, ho, hl, hc, (Option.some.inj h).symm⟩
  · intro h
    obtain ⟨before, opener, line, inside, body, closer, ho, hl, hc, rfl⟩ := h
    simp only [ho, hl, hc]

theorem agrees_cutMarked (page : Text) : Agrees cutMarked (nextMarked page) page := by
  intro k c
  rw [cutMarked_eq_some_iff]
  have skip {i l : Nat} (start : StartAt page i) : First (LineEndAt page) i l ↔
      First (LineEndAt page) (i + startMark.length) l :=
    First.skip_iff (Nat.le_add_right _ _) fun _ => start.spelled.getElem?_ne (by decide)
  have offset {i l : Nat} (hi : k ≤ i) (hl : First (LineEndAt page) i l) :
      ((page.drop k).take (i - k)).length + ((page.drop i).take (l - i)).length + 1 =
        l + 1 - k := by
    have le := hl.le
    have inside := hl.here.lt_length
    rw [List.length_take, List.length_take, List.length_drop, List.length_drop]
    omega
  constructor
  · intro h
    obtain ⟨_, _, _, _, _, _, ho, hl, hc, rfl⟩ := h
    obtain ⟨i, start, rfl, rfl⟩ := (breakWhere_drop_eq_some_iff (fun _ => atStart_drop) rfl).mp ho
    obtain ⟨l, line, rfl, rfl⟩ := splitAtWord_line_drop_eq_some_iff.mp hl
    obtain ⟨e, finish, rfl, rfl⟩ := (breakWhere_drop_eq_some_iff (fun _ => atEnd_drop) rfl).mp hc
    refine ⟨_, _, ⟨i, l, e, ⟨start, (skip start.here).mp line, finish⟩, rfl, rfl⟩, ?_⟩
    rw [offset start.le line, List.drop_drop]
    rfl
  · intro h
    obtain ⟨_, _, ⟨i, l, e, ⟨start, line, finish⟩, rfl, rfl⟩, rfl⟩ := h
    have near := (skip start.here).mpr line
    refine ⟨_, _, _, _, _, _,
      (breakWhere_drop_eq_some_iff (fun _ => atStart_drop) rfl).mpr ⟨i, start, rfl, rfl⟩,
      splitAtWord_line_drop_eq_some_iff.mpr ⟨l, near, rfl, rfl⟩,
      (breakWhere_drop_eq_some_iff (fun _ => atEnd_drop) rfl).mpr ⟨e, finish, rfl, rfl⟩, ?_⟩
    rw [offset start.le near, List.drop_drop]
    rfl

/-! ## In fences -/

/-- The names of the language, one of which stands in the opening of a fence. -/
def languages : List Text := ["plantuml", "puml"]

def TripleAt (page : Text) (i : Nat) : Prop := fence <+: page.drop i

/-- The last line end among the blanks from a place on. -/
structure LastLineEnd (page : Text) (j l : Nat) : Prop where
  here : LineEndAt page l
  blanks : Spans isBlank page j l
  last : ∀ m, LineEndAt page m → Spans isBlank page j m → m ≤ l

/-- A fence opens at a place, and its body begins at another: behind the backticks
and the language, and behind the last line end among the blanks there. -/
def FenceAt (page : Text) (i s : Nat) : Prop :=
  TripleAt page i ∧ ∃ language ∈ languages, SpelledAt language page (i + fence.length) ∧
    ∃ l, LastLineEnd page (i + fence.length + language.length) l ∧ s = l + 1

/-- The next diagram in a fence: the leftmost fence that opens from a place on, and
the first three backticks behind its opening. -/
structure FencedAt (page : Text) (k i s e : Nat) : Prop where
  start : First (fun x => ∃ s, FenceAt page x s) k i
  opens : FenceAt page i s
  finish : First (TripleAt page) s e

def nextFenced (page : Text) : Next := fun k b r =>
  ∃ i s e, FencedAt page k i s e ∧ b = piece page s e ∧ r = e + fence.length

theorem TripleAt.le_length (h : TripleAt page i) : i + fence.length ≤ page.length := by
  have short := h.length_le
  rw [List.length_drop] at short
  have : fence.length = 3 := rfl
  omega

theorem FenceAt.le (h : FenceAt page i s) : i + fence.length ≤ s := by
  obtain ⟨_, language, _, _, l, line, rfl⟩ := h
  have := line.blanks.le
  omega

theorem cuts_nextFenced (page : Text) : (nextFenced page).Cuts page := by
  intro k b r h
  obtain ⟨i, s, e, fenced, rfl, rfl⟩ := h
  have start := fenced.start.le
  have opens := fenced.opens.le
  exact ⟨s, e, rfl, by omega, fenced.finish.le, Nat.le_add_right _ _, fenced.finish.here.le_length⟩

theorem stripWord?_drop_eq_some_iff {rest : Text} :
    stripWord? word (page.drop i) = some rest ↔
      word <+: page.drop i ∧ rest = page.drop (i + word.length) := by
  rw [stripWord?_eq_some_iff]
  constructor
  · intro h
    refine ⟨⟨rest, h.symm⟩, ?_⟩
    rw [← List.drop_drop, h, List.drop_left]
  · intro h
    obtain ⟨⟨behind, cut⟩, rfl⟩ := h
    rw [← List.drop_drop, ← cut, List.drop_left]

/-- The names of the language differ in their second letter. -/
theorem languages_exclusive (h : SpelledAt "plantuml" page i) : ¬ SpelledAt "puml" page i := by
  intro other
  obtain ⟨c, hc, letter⟩ := h.getElem? (n := 1) (by decide)
  obtain ⟨d, hd, letter'⟩ := other.getElem? (n := 1) (by decide)
  obtain rfl := Option.some.inj (hc.symm.trans hd)
  change isLetterOf (.scalar 'l') c = true at letter
  change isLetterOf (.scalar 'u') c = true at letter'
  cases c with
  | scalar c =>
    have second : c.toLower = 'l' := by simpa [isLetterOf] using letter
    have second' : c.toLower = 'u' := by simpa [isLetterOf] using letter'
    exact absurd (second.symm.trans second') (by decide)
  | _ => cases letter

theorem stripLanguage_drop_eq_some_iff {rest : Text} :
    ((stripAnyCase? "plantuml" (page.drop i)).orElse
      fun _ => stripAnyCase? "puml" (page.drop i)) = some rest ↔
      ∃ language ∈ languages, SpelledAt language page i ∧
        rest = page.drop (i + language.length) := by
  simp only [languages, List.mem_cons, List.not_mem_nil, or_false, exists_eq_or_imp, exists_eq_left,
    ← stripAnyCase?_drop_eq_some_iff]
  cases h : stripAnyCase? "plantuml" (page.drop i) with
  | none => simp
  | some behind =>
    have other (rest : Text) : stripAnyCase? "puml" (page.drop i) ≠ some rest := fun found =>
      languages_exclusive (stripAnyCase?_drop_eq_some_iff.mp h).1
        (stripAnyCase?_drop_eq_some_iff.mp found).1
    simp [other]

theorem LastLineEnd.unique {l m : Nat} (hl : LastLineEnd page j l) (hm : LastLineEnd page j m) :
    l = m :=
  Nat.le_antisymm (hm.last l hl.here hl.blanks) (hl.last m hm.here hm.blanks)

theorem exists_append_last {c : CodePoint} {t : Text} (h : c ∈ t) :
    ∃ front tail, t = front ++ c :: tail ∧ c ∉ tail ∧
      (t.reverse.takeWhile (· != c)).reverse = tail := by
  obtain ⟨tail, front, cut, absent⟩ := List.eq_append_cons_of_mem (List.mem_reverse.mpr h)
  have whole := congrArg List.reverse cut
  rw [List.reverse_reverse, List.reverse_append, List.reverse_cons, List.append_assoc,
    List.singleton_append] at whole
  refine ⟨front.reverse, tail.reverse, whole, by rwa [List.mem_reverse], ?_⟩
  have others : ∀ d ∈ tail, (d != c) = true := fun d hd => bne_iff_ne.mpr fun e => absent (e ▸ hd)
  rw [cut, List.takeWhile_append_of_pos others, List.takeWhile_cons_of_neg (by simp),
    List.append_nil]

theorem exists_lastLineEnd (h : .scalar '\n' ∈ (page.drop i).takeWhile isBlank) :
    ∃ l, LastLineEnd page i l ∧ page.drop (l + 1) =
      (((page.drop i).takeWhile isBlank).reverse.takeWhile (· != .scalar '\n')).reverse ++
        (page.drop i).drop ((page.drop i).takeWhile isBlank).length := by
  obtain ⟨front, tail, cut, absent, kept⟩ := exists_append_last h
  have short : ((page.drop i).takeWhile isBlank).length = front.length + (tail.length + 1) := by
    rw [cut, List.length_append, List.length_cons]
  have run (x : Nat) (hx : x < ((page.drop i).takeWhile isBlank).length) :
      page[i + x]? = (front ++ .scalar '\n' :: tail)[x]? := by
    rw [← List.getElem?_drop, ← cut]
    have found := List.prefix_iff_getElem?.mp (List.takeWhile_prefix isBlank) x hx
    rw [found, List.getElem?_eq_getElem hx]
  have here : LineEndAt page (i + front.length) := by
    unfold LineEndAt
    rw [run _ (by omega), List.getElem?_append_right (Nat.le_refl _), Nat.sub_self]
    rfl
  refine ⟨i + front.length, ⟨here, spans_iff.mpr ⟨Nat.le_add_right _ _, ?_⟩, fun m hm blanks => ?_⟩,
    ?_⟩
  · unfold Token.runLength
    omega
  · by_contra behind
    -- a further line end would be a blank as well, and stand in the tail
    have further : Spans isBlank page i (m + 1) := blanks.succ hm isBlank_newline
    have within := (spans_iff.mp further).2
    unfold Token.runLength at within
    have found := run (m - i) (by omega)
    rw [Nat.add_sub_cancel' blanks.le, show page[m]? = _ from hm,
      List.getElem?_append_right (by omega)] at found
    obtain ⟨n, hn⟩ : ∃ n, m - i - front.length = n + 1 := ⟨m - i - front.length - 1, by omega⟩
    rw [hn, List.getElem?_cons_succ] at found
    exact absent (List.mem_of_getElem? found.symm)
  · calc page.drop (i + front.length + 1)
      _ = (page.drop i).drop (front.length + 1) := by rw [List.drop_drop, Nat.add_assoc]
      _ = (front ++ .scalar '\n' :: tail ++ (page.drop i).dropWhile isBlank).drop
            (front.length + 1) := by rw [← cut, List.takeWhile_append_dropWhile]
      _ = tail ++ (page.drop i).dropWhile isBlank := by
        rw [List.append_assoc, List.drop_length_add_append]
        rfl
      _ = _ := by rw [kept, ← Token.drop_runLength, Token.runLength]

theorem LastLineEnd.mem_blanks {l : Nat} (h : LastLineEnd page i l) :
    .scalar '\n' ∈ (page.drop i).takeWhile isBlank := by
  have further : Spans isBlank page i (l + 1) := h.blanks.succ h.here isBlank_newline
  have within := (spans_iff.mp further).2
  unfold Token.runLength at within
  have le := h.blanks.le
  have found := List.prefix_iff_getElem?.mp (List.takeWhile_prefix isBlank (l := page.drop i))
    (l - i) (by omega)
  rw [List.getElem?_drop, Nat.add_sub_cancel' le, show page[l]? = _ from h.here] at found
  exact Option.some.inj found ▸ List.getElem_mem _

theorem stripFence?_eq_some_iff {cs inside : Text} : stripFence? cs = some inside ↔
    ∃ named rest, stripWord? fence cs = some named ∧
      ((stripAnyCase? "plantuml" named).orElse fun _ => stripAnyCase? "puml" named) = some rest ∧
      .scalar '\n' ∈ rest.takeWhile isBlank ∧
      inside = ((rest.takeWhile isBlank).reverse.takeWhile (· != .scalar '\n')).reverse ++
        rest.drop (rest.takeWhile isBlank).length := by
  unfold stripFence?
  constructor
  · intro h
    split at h
    · cases h
    · rename_i named hn
      split at h
      · cases h
      · rename_i rest hr
        simp only at h
        split at h
        · rename_i line
          exact ⟨named, rest, hn, hr, List.contains_iff_mem.mp line, (Option.some.inj h).symm⟩
        · cases h
  · intro h
    obtain ⟨named, rest, hn, hr, line, rfl⟩ := h
    simp only [hn, hr, List.contains_iff_mem.mpr line, if_true]

theorem stripFence?_drop_eq_some_iff {inside : Text} :
    stripFence? (page.drop i) = some inside ↔ ∃ s, FenceAt page i s ∧ inside = page.drop s := by
  rw [stripFence?_eq_some_iff]
  constructor
  · intro h
    obtain ⟨_, _, hn, hr, line, rfl⟩ := h
    obtain ⟨triple, rfl⟩ := stripWord?_drop_eq_some_iff.mp hn
    obtain ⟨language, mem, spelled, rfl⟩ := stripLanguage_drop_eq_some_iff.mp hr
    obtain ⟨l, last, behind⟩ := exists_lastLineEnd line
    exact ⟨l + 1, ⟨triple, language, mem, spelled, l, last, rfl⟩, behind.symm⟩
  · intro h
    obtain ⟨_, ⟨triple, language, mem, spelled, l, last, rfl⟩, rfl⟩ := h
    obtain ⟨m, again, behind⟩ := exists_lastLineEnd last.mem_blanks
    obtain rfl := last.unique again
    exact ⟨_, _, stripWord?_drop_eq_some_iff.mpr ⟨triple, rfl⟩,
      stripLanguage_drop_eq_some_iff.mpr ⟨language, mem, spelled, rfl⟩, last.mem_blanks, behind⟩

theorem FenceAt.le_length (h : FenceAt page i s) : s ≤ page.length := by
  obtain ⟨_, _, _, _, _, line, rfl⟩ := h
  exact line.here.lt_length

theorem cutFenced_eq_some_iff {cs : Text} {c : Cut} : cutFenced cs = some c ↔
    ∃ before opener inside body closer, breakWhere atFence cs = some (before, opener) ∧
      stripFence? opener = some inside ∧
      breakWhere (startsWith fence) inside = some (body, closer) ∧
      c = ⟨before.length + (opener.length - inside.length), body, closer.drop fence.length⟩ := by
  unfold cutFenced
  constructor
  · intro h
    split at h
    · cases h
    · rename_i before opener ho
      split at h
      · cases h
      · rename_i inside hi
        split at h
        · cases h
        · rename_i body closer hc
          exact ⟨before, opener, inside, body, closer, ho, hi, hc, (Option.some.inj h).symm⟩
  · intro h
    obtain ⟨before, opener, inside, body, closer, ho, hi, hc, rfl⟩ := h
    simp only [ho, hi, hc]

theorem atFence_drop : atFence (page.drop i) = true ↔ ∃ s, FenceAt page i s := by
  unfold atFence
  rw [Option.isSome_iff_exists]
  simp only [stripFence?_drop_eq_some_iff]
  exact ⟨fun ⟨_, s, opens, _⟩ => ⟨s, opens⟩, fun ⟨s, opens⟩ => ⟨_, s, opens, rfl⟩⟩

theorem tripleAt_drop : startsWith fence (page.drop i) = true ↔ TripleAt page i := startsWith_iff

theorem agrees_cutFenced (page : Text) : Agrees cutFenced (nextFenced page) page := by
  intro k c
  rw [cutFenced_eq_some_iff]
  have offset {i s : Nat} (hi : k ≤ i) (opens : FenceAt page i s) :
      ((page.drop k).take (i - k)).length + ((page.drop i).length - (page.drop s).length) =
        s - k := by
    have le := opens.le
    have inside := opens.le_length
    rw [List.length_take, List.length_drop, List.length_drop, List.length_drop]
    omega
  constructor
  · intro h
    obtain ⟨_, _, _, _, _, ho, hi, hc, rfl⟩ := h
    obtain ⟨i, start, rfl, rfl⟩ := (breakWhere_drop_eq_some_iff (fun _ => atFence_drop) rfl).mp ho
    obtain ⟨s, opens, rfl⟩ := stripFence?_drop_eq_some_iff.mp hi
    obtain ⟨e, finish, rfl, rfl⟩ :=
      (breakWhere_drop_eq_some_iff (fun _ => tripleAt_drop) rfl).mp hc
    refine ⟨_, _, ⟨i, s, e, ⟨start, opens, finish⟩, rfl, rfl⟩, ?_⟩
    rw [offset start.le opens, List.drop_drop]
    rfl
  · intro h
    obtain ⟨_, _, ⟨i, s, e, ⟨start, opens, finish⟩, rfl, rfl⟩, rfl⟩ := h
    refine ⟨_, _, _, _, _,
      (breakWhere_drop_eq_some_iff (fun _ => atFence_drop) rfl).mpr ⟨i, start, rfl, rfl⟩,
      stripFence?_drop_eq_some_iff.mpr ⟨s, opens, rfl⟩,
      (breakWhere_drop_eq_some_iff (fun _ => tripleAt_drop) rfl).mpr ⟨e, finish, rfl, rfl⟩, ?_⟩
    rw [offset start.le opens, List.drop_drop]
    rfl

/-! ## The blocks of a page -/

theorem scan_marked_iff : Scan (nextMarked page) 0 found ↔ found = marked page :=
  scan_iff_eq_collect shortens_cutMarked (cuts_nextMarked page) (agrees_cutMarked page)

theorem scan_fenced_iff : Scan (nextFenced page) 0 found ↔ found = fenced page :=
  scan_iff_eq_collect shortens_cutFenced (cuts_nextFenced page) (agrees_cutFenced page)

end Page
end ClassGraph
