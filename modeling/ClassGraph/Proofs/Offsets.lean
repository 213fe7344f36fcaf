import ClassGraph.Proofs.Gap
import ClassGraph.Proofs.Stream
import Mathlib.Data.List.DropRight

/-! # Every token stands in the text where it says

The reader keeps what is left of a text and a place that it moves on with every
character. Here both are compared with an offset into the whole text: what is
left begins at the offset, and the place is the one behind the characters in
front of it. From this the tokens of a text are found at rising offsets, each
gap between them holds blanks and comments only, and nothing is lost in between.
An error stands behind the last gap.
-/

namespace ClassGraph

namespace Position

/-- The place behind a text: one line more than it has line feeds, and one column
more than its last line has characters. -/
def behind (cs : Text) : Position where
  line := 1 + cs.count (.scalar '\n')
  column := 1 + (cs.rtakeWhile (· != .scalar '\n')).length

theorem first_advance (cs : Text) : first.advance cs = behind cs := by
  induction cs using List.reverseRecOn with
  | nil => rfl
  | append_singleton cs c ih =>
    rw [advance_append, ih, advance_cons, advance_nil]
    unfold step behind
    rw [List.count_append, List.rtakeWhile_concat]
    by_cases hc : c = .scalar '\n'
    · simp [hc]; omega
    · simp [hc]; omega

theorem behind_advance (cs ds : Text) : (behind cs).advance ds = behind (cs ++ ds) := by
  rw [← first_advance, ← first_advance, advance_append]

end Position

namespace Token

/-- From one offset of a text to another there is a gap. -/
structure GapBetween (source : Text) (a p : Nat) : Prop where
  le : a ≤ p
  inside : p ≤ source.length
  gap : Gap ((source.take p).drop a) (source.drop p)

/-- The text of a token is found at an offset, and its place is that of the offset. -/
structure StandsAt (source : Text) (t : Token) (p : Nat) : Prop where
  text : (source.drop p).take t.text.length = t.text
  position : t.position = .behind (source.take p)

/-- Tokens that stand at offsets of a text one behind the other, each behind a
gap. The first number is the offset where reading begins, the last one the offset
behind the last token. -/
inductive Spread (source : Text) : Nat → List Token → List Nat → Nat → Prop
  | nil {a : Nat} : Spread source a [] [] a
  | cons {a p b : Nat} {t : Token} {ts : List Token} {ps : List Nat}
      (gap : GapBetween source a p) (stands : StandsAt source t p)
      (rest : Spread source (p + t.text.length) ts ps b) : Spread source a (t :: ts) (p :: ps) b

/-- Why no token can be read at an offset. -/
structure RefusedAt (source : Text) (e : LexError) (p : Nat) : Prop where
  position : e.position = .behind (source.take p)
  solid : Solid (source.drop p)
  reason : (e.fault = .openComment ∧ OpenComment (source.drop p)) ∨
    (e.fault ≠ .openComment ∧ p < source.length ∧ ∀ row ∈ rules, row.2 (source.drop p) = none)

/-! ## The reader at an offset -/

/-- What is left of a text from an offset on, and the place of the offset. -/
structure Cursor.At (source : Text) (p : Nat) (c : Cursor) : Prop where
  inside : p ≤ source.length
  rest : c.rest = source.drop p
  position : c.position = .behind (source.take p)

theorem Cursor.at_ofText (source : Text) : Cursor.At source 0 (.ofText source) :=
  ⟨Nat.zero_le _, rfl, rfl⟩

variable {source : Text} {p : Nat} {c : Cursor}

theorem Cursor.At.length_rest (h : c.At source p) : c.rest.length = source.length - p := by
  rw [h.rest, List.length_drop]

theorem Cursor.At.take_append (h : c.At source p) {front tail : Text}
    (hc : c.rest = front ++ tail) :
    p + front.length ≤ source.length ∧ source.take (p + front.length) = source.take p ++ front ∧
      source.drop (p + front.length) = tail := by
  have length := congrArg List.length hc
  rw [h.length_rest, List.length_append] at length
  have split : (source.drop p).take front.length = front := by
    rw [← h.rest, hc, List.take_left]
  have inside := h.inside
  refine ⟨by omega, ?_, ?_⟩
  · rw [List.take_add, split]
  · rw [← List.drop_drop, ← h.rest, hc, List.drop_left]

/-- The reader behind some characters stands at the offset behind them. -/
theorem Cursor.At.append (h : c.At source p) {front tail : Text} (hc : c.rest = front ++ tail)
    {d : Cursor} (rest : d.rest = tail) (position : d.position = c.position.advance front) :
    d.At source (p + front.length) := by
  obtain ⟨inside, taken, dropped⟩ := h.take_append hc
  refine ⟨inside, by rw [rest, dropped], ?_⟩
  rw [position, h.position, Position.behind_advance, taken]

theorem Cursor.At.gapBetween (h : c.At source p) {gap tail : Text} (hc : c.rest = gap ++ tail)
    (hg : Gap gap tail) : GapBetween source p (p + gap.length) := by
  obtain ⟨inside, taken, dropped⟩ := h.take_append hc
  refine ⟨Nat.le_add_right _ _, inside, ?_⟩
  rw [taken, dropped, List.drop_left' (by rw [List.length_take, Nat.min_eq_left h.inside])]
  exact hg

theorem Cursor.At.standsAt (h : c.At source p) (kind : TokenKind) {text tail : Text}
    (hc : c.rest = text ++ tail) : StandsAt source ⟨kind, text, c.position⟩ p := by
  refine ⟨?_, h.position⟩
  rw [← h.rest, hc, List.take_left]

theorem recognize_eq_none_iff {cs : Text} :
    recognize cs = none ↔ ∀ row ∈ rules, row.2 cs = none := by
  unfold recognize
  rw [List.findSome?_eq_none_iff]
  simp only [Option.map_eq_none_iff]

/-- What stands at an offset where no gap goes on: a token, the end, or an error. -/
theorem readHere_at (h : c.At source p) (solid : Solid c.rest) :
    match readHere c with
    | .token t rest => StandsAt source t p ∧ t.text ≠ [] ∧ rest.At source (p + t.text.length)
    | .finish mark => StandsAt source mark.token p ∧ (mark.text = [] → p = source.length)
    | .error e => RefusedAt source e p := by
  unfold readHere
  cases hc : c.rest with
  | nil =>
    have length := h.length_rest
    have inside := h.inside
    rw [hc, List.length_nil] at length
    have empty : c.rest = [] ++ [] := hc
    exact ⟨h.standsAt .finish empty, fun _ => by omega⟩
  | cons first others =>
    simp only
    rw [← hc]
    cases hr : recognize c.rest with
    | none =>
      have length := h.length_rest
      rw [hc, List.length_cons] at length
      refine ⟨h.position, h.rest ▸ solid, .inr ⟨?_, by omega, ?_⟩⟩
      · simp only; split <;> nofun
      · rw [← h.rest]; exact recognize_eq_none_iff.mp hr
    | some found =>
      obtain ⟨kind, n⟩ := found
      obtain ⟨hn, hle⟩ := recognize_fits hr
      have cut := (List.take_append_drop n c.rest).symm
      have length : (c.rest.take n).length = n := by rw [List.length_take, Nat.min_eq_left hle]
      have nonempty : c.rest.take n ≠ [] := by
        intro he
        rw [he, List.length_nil] at length
        omega
      have stands := h.standsAt kind cut
      by_cases hk : kind = .finish
      · subst hk
        simp only [if_true]
        exact ⟨stands, fun he => absurd he nonempty⟩
      · simp only [if_neg hk]
        exact ⟨stands, nonempty, h.append cut rfl rfl⟩

/-- Reading at an offset: what is found stands behind a gap. -/
theorem readNext_at (h : c.At source p) : ∃ q, GapBetween source p q ∧
    match readNext c with
    | .token t rest => StandsAt source t q ∧ t.text ≠ [] ∧ rest.At source (q + t.text.length)
    | .finish mark => StandsAt source mark.token q ∧ (mark.text = [] → q = source.length)
    | .error e => RefusedAt source e q := by
  unfold readNext
  cases hs : c.skipGap with
  | error position =>
    obtain ⟨gap, behind, hc, hg, hp, open_⟩ := Cursor.exists_of_skipGap_error hs
    have dropped := (h.take_append hc).2.2
    have there : Cursor.At source (p + gap.length) ⟨behind, position⟩ := h.append hc rfl hp
    refine ⟨_, h.gapBetween hc hg, there.position, ?_, .inl ⟨rfl, ?_⟩⟩
    · rw [dropped]; exact open_.solid
    · rw [dropped]; exact open_
  | ok d =>
    obtain ⟨gap, hc, hg, hp, solid, _⟩ := Cursor.exists_of_skipGap hs
    exact ⟨_, h.gapBetween hc hg, readHere_at (h.append hc rfl hp) solid⟩

/-! ## All tokens -/

/-- What a stream ends in, behind an offset. -/
def EndsAt (source : Text) (b : Nat) : Ending → Prop
  | .ok mark => ∃ p, GapBetween source b p ∧ StandsAt source mark.token p ∧
      (mark.text = [] → p = source.length)
  | .error e => ∃ p, GapBetween source b p ∧ RefusedAt source e p

theorem readAll_at (h : c.At source p) : ∃ offsets b, Spread source p (readAll c).1 offsets b ∧
    (∀ t ∈ (readAll c).1, t.text ≠ []) ∧ EndsAt source b (readAll c).2 := by
  fun_induction readAll c generalizing p with
  | case1 c e he =>
    obtain ⟨q, gap, found⟩ := readNext_at h
    rw [he] at found
    exact ⟨[], p, .nil, fun _ ht => absurd ht List.not_mem_nil, q, gap, found⟩
  | case2 c mark he =>
    obtain ⟨q, gap, found⟩ := readNext_at h
    rw [he] at found
    exact ⟨[], p, .nil, fun _ ht => absurd ht List.not_mem_nil, q, gap, found⟩
  | case3 c token rest he _ tokens ending hr ih =>
    obtain ⟨q, gap, found⟩ := readNext_at h
    rw [he] at found
    obtain ⟨stands, nonempty, there⟩ := found
    obtain ⟨offsets, b, spread, all, ends⟩ := ih there
    rw [hr] at spread all ends
    refine ⟨q :: offsets, b, .cons gap stands spread, ?_, ends⟩
    intro t ht
    rcases List.mem_cons.mp ht with rfl | ht
    · exact nonempty
    · exact all t ht

theorem Spread.le {a b : Nat} {ts : List Token} {ps : List Nat} (h : Spread source a ts ps b) :
    a ≤ b ∧ ∀ q ∈ ps, a ≤ q := by
  induction h with
  | nil => exact ⟨Nat.le_refl _, nofun⟩
  | cons gap _ _ ih =>
    have := gap.le
    refine ⟨by omega, fun q hq => ?_⟩
    rcases List.mem_cons.mp hq with rfl | hq
    · exact gap.le
    · have := ih.2 q hq
      omega

/-- Tokens with characters stand at rising offsets, also if an empty one follows. -/
theorem Spread.pairwise {a b : Nat} {ts : List Token} {ps : List Nat}
    (h : Spread source a ts ps b) (nonempty : ∀ t ∈ ts.dropLast, t.text ≠ []) :
    ps.Pairwise (· < ·) := by
  induction h with
  | nil => exact .nil
  | @cons a p b t ts ps _ _ rest ih =>
    cases rest with
    | nil => exact List.pairwise_singleton _ _
    | cons gap stands rest =>
      refine List.pairwise_cons.mpr ⟨fun q hq => ?_, ih fun u hu => ?_⟩
      · have := List.length_pos_iff.mpr (nonempty t List.mem_cons_self)
        have := (Spread.cons gap stands rest).le.2 q hq
        omega
      · exact nonempty u (List.mem_cons_of_mem _ hu)

theorem Spread.snoc {a b p : Nat} {ts : List Token} {ps : List Nat} {t : Token}
    (h : Spread source a ts ps b) (gap : GapBetween source b p) (stands : StandsAt source t p) :
    Spread source a (ts ++ [t]) (ps ++ [p]) (p + t.text.length) := by
  induction h with
  | nil => exact .cons gap stands .nil
  | cons first here _ ih => exact .cons first here (ih gap)

end Token

/-- The tokens of a text stand in it at rising offsets, with their exact texts
and true places, and between them is nothing but gaps. Only the end of the text
has no characters. Where no token can be read, the same holds of the tokens in
front, and the error has the place behind the gap that follows them: a comment
is open there, or no form of a token fits. -/
theorem tokens_spread (source : Text) :
    (∀ tokens, tokenize source = .ok tokens → ∃ offsets stop,
      Token.Spread source 0 tokens offsets stop ∧ offsets.Pairwise (· < ·) ∧
      ∃ front finish, tokens = front ++ [finish] ∧
        (∀ t ∈ front, t.text ≠ [] ∧ t.kind ≠ .finish) ∧ finish.kind = .finish ∧
        (finish.text = [] → stop = source.length)) ∧
    ∀ e, tokenize source = .error e → ∃ tokens offsets stop p,
      Token.stream source = (tokens, .error e) ∧
      Token.Spread source 0 tokens offsets stop ∧ offsets.Pairwise (· < ·) ∧
      (∀ t ∈ tokens, t.text ≠ [] ∧ t.kind ≠ .finish) ∧
      Token.GapBetween source stop p ∧ Token.RefusedAt source e p := by
  obtain ⟨offsets, b, spread, nonempty, ends⟩ :=
    Token.readAll_at (Token.Cursor.at_ofText source)
  change Token.Spread source 0 (Token.stream source).1 offsets b at spread
  change ∀ t ∈ (Token.stream source).1, _ at nonempty
  change Token.EndsAt source b (Token.stream source).2 at ends
  have front : ∀ t ∈ (Token.stream source).1, t.text ≠ [] ∧ t.kind ≠ .finish := fun t ht =>
    ⟨nonempty t ht, Token.kind_ne_finish_of_mem_stream ht⟩
  unfold tokenize
  cases hs : Token.stream source with
  | mk read ending =>
    rw [hs] at spread ends front
    cases ending with
    | ok mark =>
      refine ⟨fun tokens h => ?_, nofun⟩
      cases h
      obtain ⟨p, gap, stands, last⟩ := ends
      refine ⟨_, _, spread.snoc gap stands, (spread.snoc gap stands).pairwise ?_, read, mark.token,
        rfl, front, rfl, fun he => ?_⟩
      · rw [List.dropLast_concat]
        exact fun t ht => (front t ht).1
      · rw [last he, he]; rfl
    | error e =>
      refine ⟨nofun, fun e' h => ?_⟩
      cases h
      obtain ⟨p, gap, refused⟩ := ends
      exact ⟨read, offsets, b, p, rfl, spread,
        spread.pairwise fun t ht => (front t (List.mem_of_mem_dropLast ht)).1, front, gap, refused⟩

/-- A comment over two lines, a comment of a line and a start mark that takes its
line along do not spoil the places. What looks like a comment that opens and
closes at once is open. -/
theorem tokens_spread_over_comments :
    (∃ (source : Text) (tokens : List Token) (offsets : List Nat) (stop : Nat),
      source = ("@startuml x\n /' a\n b '/ class \"'A\" ' c\n\t@enduml" : String) ∧
      tokenize source = .ok tokens ∧
      tokens.map Token.position = [⟨1, 1⟩, ⟨3, 7⟩, ⟨3, 13⟩, ⟨4, 2⟩] ∧
      Token.Spread source 0 tokens offsets stop ∧ offsets.Pairwise (· < ·)) ∧
    ∃ (source : Text) (e : LexError) (p : Nat),
      source = ("class A\n /'/ B" : String) ∧ tokenize source = .error e ∧
      e = ⟨.openComment, ⟨2, 2⟩⟩ ∧ Token.RefusedAt source e p := by
  constructor
  · let source : Text := ("@startuml x\n /' a\n b '/ class \"'A\" ' c\n\t@enduml" : String)
    obtain ⟨tokens, ht⟩ : ∃ tokens, tokenize source = .ok tokens :=
      exists_ok_of_isOk (by decide +kernel)
    obtain ⟨offsets, stop, spread, rising, _⟩ := (tokens_spread source).1 tokens ht
    refine ⟨source, tokens, offsets, stop, rfl, ht, ?_, spread, rising⟩
    have places : (tokenize source).map (List.map Token.position) =
        .ok [⟨1, 1⟩, ⟨3, 7⟩, ⟨3, 13⟩, ⟨4, 2⟩] := by decide +kernel
    rw [ht] at places
    exact Except.ok.inj places
  · let source : Text := ("class A\n /'/ B" : String)
    have refused : tokenize source = .error ⟨.openComment, ⟨2, 2⟩⟩ := by decide +kernel
    obtain ⟨_, _, _, p, _, _, _, _, _, at_⟩ := (tokens_spread source).2 _ refused
    exact ⟨source, _, p, rfl, refused, rfl, at_⟩

end ClassGraph
