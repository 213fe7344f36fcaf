import ClassGraph.Proofs.Offsets
import ClassGraph.Proofs.Recognition

/-! # Texts that spell the same tokens

What the tokens of a text are, apart from their places, can be said without a
reader: the text is a sequence of gaps and forms, and each form is recognized
where it stands. A form is recognized at the end of a line as well. So the forms
of a text may be put on lines of their own, with any gap behind each line feed,
and spell the same tokens.
-/

namespace ClassGraph

open Text

namespace Token

/-- A token without its place. -/
abbrev Form := TokenKind × Text

def form (t : Token) : Form := (t.kind, t.text)

/-- A text is made of these forms, with gaps in front of them. Nothing counts
behind an end mark. -/
inductive Spells : List Form → Text → Prop
  | stop {gap : Text} (skipped : Gap gap []) : Spells [(.finish, [])] gap
  | mark {gap text rest : Text} (skipped : Gap gap (text ++ rest))
      (recognized : recognize (text ++ rest) = some (.finish, text.length)) :
      Spells [(.finish, text)] (gap ++ (text ++ rest))
  | token {gap text rest : Text} {kind : TokenKind} {forms : List Form}
      (skipped : Gap gap (text ++ rest))
      (recognized : recognize (text ++ rest) = some (kind, text.length))
      (continues : kind ≠ .finish) (others : Spells forms rest) :
      Spells ((kind, text) :: forms) (gap ++ (text ++ rest))

theorem Spells.ne_nil {forms : List Form} {source : Text} (h : Spells forms source) :
    forms ≠ [] := by
  cases h <;> nofun

theorem Spells.cons {text rest : Text} {kind : TokenKind} {forms : List Form}
    (recognized : recognize (text ++ rest) = some (kind, text.length))
    (continues : kind ≠ .finish) (others : Spells forms rest) :
    Spells ((kind, text) :: forms) (text ++ rest) := .token .nil recognized continues others

theorem Spells.gap {forms : List Form} {source gap : Text} (h : Spells forms source)
    (hg : Gap gap source) : Spells forms (gap ++ source) := by
  cases h with
  | stop skipped => exact .stop (Gap.append (by rwa [List.append_nil]) skipped)
  | mark skipped recognized =>
    rw [← List.append_assoc]
    exact .mark (hg.append skipped) recognized
  | token skipped recognized continues others =>
    rw [← List.append_assoc]
    exact .token (hg.append skipped) recognized continues others

/-! ## The reader finds what is spelled -/

theorem readNext_of_skipGap {c d : Cursor} (h : c.skipGap = .ok d) : readNext c = readHere d := by
  unfold readNext
  rw [h]

theorem readHere_of_nil {c : Cursor} (h : c.rest = []) :
    readHere c = .finish ⟨[], c.position⟩ := by
  unfold readHere
  rw [h]; rfl

theorem readHere_of_recognize {c : Cursor} {kind : TokenKind} {n : Nat}
    (h : recognize c.rest = some (kind, n)) :
    readHere c = if kind = .finish then .finish ⟨c.rest.take n, c.position⟩
      else .token ⟨kind, c.rest.take n, c.position⟩ (c.advance n) := by
  obtain ⟨first, others, hc⟩ : ∃ first others, c.rest = first :: others := by
    have fits := recognize_fits h
    exact List.exists_cons_of_length_pos (Nat.lt_of_lt_of_le fits.1 fits.2)
  unfold readHere
  rw [hc] at h ⊢
  simp only [h]

theorem readHere_of_none {c : Cursor} (hc : c.rest ≠ []) (h : recognize c.rest = none) :
    ∃ e, readHere c = .error e := by
  obtain ⟨first, others, hc⟩ := List.exists_cons_of_ne_nil hc
  unfold readHere
  rw [hc] at h ⊢
  simp only [h]
  exact ⟨_, rfl⟩

/-- The reader goes past a gap to the form behind it. -/
theorem readNext_of_gap {gap text rest : Text} {kind : TokenKind} (skipped : Gap gap (text ++ rest))
    (recognized : recognize (text ++ rest) = some (kind, text.length)) (p : Position) :
    readNext ⟨gap ++ (text ++ rest), p⟩ =
      if kind = .finish then .finish ⟨text, p.advance gap⟩
      else .token ⟨kind, text, p.advance gap⟩ ⟨rest, (p.advance gap).advance text⟩ := by
  obtain ⟨solid, closed⟩ := gapPiece_eq_none_iff.mp (gapPiece_of_recognize recognized)
  have here : Cursor.skipGap ⟨gap ++ (text ++ rest), p⟩ = .ok ⟨text ++ rest, p.advance gap⟩ :=
    (Cursor.skipGap_append skipped p).trans (Cursor.skipGap_of_solid solid closed)
  rw [readNext_of_skipGap here, readHere_of_recognize recognized]
  simp only [List.take_left, Cursor.advance_append]

theorem readAll_of_error {c : Cursor} {e : LexError} (h : readNext c = .error e) :
    readAll c = ([], .error e) := by
  rw [readAll]
  split <;> rename_i found <;> rw [h] at found <;> cases found
  rfl

theorem readAll_of_finish {c : Cursor} {mark : EndMark} (h : readNext c = .finish mark) :
    readAll c = ([], .ok mark) := by
  rw [readAll]
  split <;> rename_i found <;> rw [h] at found <;> cases found
  rfl

theorem readAll_of_token {c rest : Cursor} {token : Token} (h : readNext c = .token token rest) :
    readAll c = (token :: (readAll rest).1, (readAll rest).2) := by
  rw [readAll]
  split <;> rename_i found <;> rw [h] at found <;> cases found
  rfl

theorem readAll_of_spells {forms : List Form} {source : Text} (h : Spells forms source)
    (p : Position) : ∃ tokens mark, readAll ⟨source, p⟩ = (tokens, .ok mark) ∧
      (tokens ++ [mark.token]).map form = forms := by
  induction h generalizing p with
  | @stop gap skipped =>
    have found : readNext ⟨gap, p⟩ = .finish ⟨[], p.advance gap⟩ := by
      have here := Cursor.skipGap_append skipped p
      rw [List.append_nil] at here
      rw [readNext_of_skipGap (here.trans (Cursor.skipGap_of_solid Solid.nil OpenComment.not_nil))]
      exact readHere_of_nil rfl
    exact ⟨[], _, readAll_of_finish found, rfl⟩
  | @mark gap text rest skipped recognized =>
    have found := readNext_of_gap skipped recognized p
    rw [if_pos rfl] at found
    exact ⟨[], _, readAll_of_finish found, rfl⟩
  | @token gap text rest kind forms skipped recognized continues _ ih =>
    have found := readNext_of_gap skipped recognized p
    rw [if_neg continues] at found
    obtain ⟨tokens, mark, hr, hf⟩ := ih ((p.advance gap).advance text)
    have read := readAll_of_token found
    rw [hr] at read
    refine ⟨_, mark, read, ?_⟩
    rw [List.cons_append, List.map_cons, hf]; rfl

/-- What is found behind a gap is the form that the text goes on with there. -/
theorem spells_of_readHere {gap : Text} {c : Cursor} (skipped : Gap gap c.rest) :
    (∀ mark, readHere c = .finish mark → Spells [(.finish, mark.text)] (gap ++ c.rest)) ∧
    ∀ token rest, readHere c = .token token rest → ∀ forms, Spells forms rest.rest →
      Spells (token.form :: forms) (gap ++ c.rest) := by
  by_cases hc : c.rest = []
  · rw [readHere_of_nil hc]
    refine ⟨fun mark h => ?_, nofun⟩
    cases h
    rw [hc] at skipped ⊢
    rw [List.append_nil]
    exact .stop skipped
  · cases hr : recognize c.rest with
    | none =>
      obtain ⟨e, he⟩ := readHere_of_none hc hr
      rw [he]
      exact ⟨nofun, nofun⟩
    | some found =>
      obtain ⟨kind, n⟩ := found
      rw [readHere_of_recognize hr]
      have length : (c.rest.take n).length = n := by
        rw [List.length_take, Nat.min_eq_left (recognize_fits hr).2]
      have here : recognize (c.rest.take n ++ c.rest.drop n) =
          some (kind, (c.rest.take n).length) := by
        rw [List.take_append_drop, length, hr]
      rw [← List.take_append_drop n c.rest] at skipped
      by_cases hk : kind = .finish
      · rw [if_pos hk]
        refine ⟨fun mark h => ?_, nofun⟩
        cases h
        subst hk
        have spells := Spells.mark skipped here
        rwa [List.take_append_drop] at spells
      · rw [if_neg hk]
        refine ⟨nofun, fun token rest h forms others => ?_⟩
        cases h
        have spells := Spells.token skipped here hk others
        rwa [List.take_append_drop] at spells

theorem exists_of_readNext {c : Cursor} {found : Found} (h : readNext c = found)
    (hf : ∀ e, found ≠ .error e) :
    ∃ gap d, c.rest = gap ++ d.rest ∧ Gap gap d.rest ∧ readHere d = found := by
  unfold readNext at h
  cases hs : c.skipGap with
  | error _ =>
    rw [hs] at h
    exact absurd h.symm (hf _)
  | ok d =>
    rw [hs] at h
    obtain ⟨gap, hc, skipped, _⟩ := Cursor.exists_of_skipGap hs
    exact ⟨gap, d, hc, skipped, h⟩

/-- A token that is read is recognized where it stands. -/
theorem recognize_of_readHere {c rest : Cursor} {token : Token}
    (h : readHere c = .token token rest) :
    recognize (token.text ++ rest.rest) = some (token.kind, token.text.length) := by
  cases hr : recognize c.rest with
  | none =>
    by_cases hc : c.rest = []
    · rw [readHere_of_nil hc] at h
      cases h
    · obtain ⟨e, he⟩ := readHere_of_none hc hr
      rw [he] at h
      cases h
  | some found =>
    obtain ⟨kind, n⟩ := found
    rw [readHere_of_recognize hr] at h
    split at h
    · cases h
    · cases h
      show recognize (c.rest.take n ++ c.rest.drop n) = some (kind, (c.rest.take n).length)
      rw [List.take_append_drop, List.length_take, Nat.min_eq_left (recognize_fits hr).2, hr]

theorem exists_recognize_of_mem_readAll {c : Cursor} {t : Token} (h : t ∈ (readAll c).1) :
    ∃ behind, recognize (t.text ++ behind) = some (t.kind, t.text.length) := by
  fun_induction readAll c with
  | case1 c e he => cases h
  | case2 c mark he => cases h
  | case3 c token rest he _ tokens ending hr ih =>
    rw [hr] at ih
    rcases List.mem_cons.mp h with rfl | h
    · obtain ⟨_, _, _, _, here⟩ := exists_of_readNext he (by intro e h; cases h)
      exact ⟨_, recognize_of_readHere here⟩
    · exact ih h

theorem spells_of_readAll {c : Cursor} {tokens : List Token} {mark : EndMark}
    (h : readAll c = (tokens, .ok mark)) :
    Spells ((tokens ++ [mark.token]).map form) c.rest := by
  fun_induction readAll c generalizing tokens with
  | case1 c e he => cases h
  | case2 c found he =>
    cases h
    obtain ⟨gap, d, hc, skipped, hd⟩ := exists_of_readNext he (by intro e h; cases h)
    rw [hc]
    exact (spells_of_readHere skipped).1 mark hd
  | case3 c token rest he _ read ending hr ih =>
    cases h
    obtain ⟨gap, d, hc, skipped, hd⟩ := exists_of_readNext he (by intro e h; cases h)
    rw [hc]
    exact (spells_of_readHere skipped).2 token rest hd _ (ih hr)

end Token

/-- The tokens of a text are what it spells. -/
theorem exists_tokenize_iff_spells {source : Text} {forms : List Token.Form} :
    (∃ tokens, tokenize source = .ok tokens ∧ tokens.map Token.form = forms) ↔
      Token.Spells forms source := by
  unfold tokenize
  constructor
  · rintro ⟨tokens, h, rfl⟩
    split at h
    · rename_i read mark hs
      cases h
      exact Token.spells_of_readAll hs
    · cases h
  · intro h
    obtain ⟨tokens, mark, hr, hf⟩ := Token.readAll_of_spells h .first
    have stream : Token.stream source = (tokens, .ok mark) := hr
    rw [stream]
    exact ⟨_, rfl, hf⟩

namespace Token

/-! ## The forms of a text -/

/-- The forms of all tokens of a text, that of the end mark included. -/
def forms (source : Text) : Except LexError (List Form) := (tokenize source).map (List.map form)

theorem forms_eq_ok_iff {source : Text} {fs : List Form} :
    forms source = .ok fs ↔ Spells fs source := by
  rw [← exists_tokenize_iff_spells]
  unfold forms
  cases tokenize source <;> simp [Except.map]

theorem Spells.exists_of_cons {f : Form} {fs : List Form} {source : Text}
    (h : Spells (f :: fs) source) (hf : f.1 ≠ .finish) :
    ∃ gap rest, source = gap ++ (f.2 ++ rest) ∧ Gap gap (f.2 ++ rest) ∧
      recognize (f.2 ++ rest) = some (f.1, f.2.length) ∧ Spells fs rest := by
  cases h with
  | stop => exact absurd rfl hf
  | mark => exact absurd rfl hf
  | token skipped recognized _ others => exact ⟨_, _, rfl, skipped, recognized, others⟩

/-- A text is one form exactly if it is recognized as that form to its end. -/
theorem forms_eq_single_iff {f : Form} (hf : f.1 ≠ .finish) :
    forms f.2 = .ok [f, (.finish, [])] ↔ recognize f.2 = some (f.1, f.2.length) := by
  rw [forms_eq_ok_iff]
  constructor
  · intro h
    obtain ⟨gap, rest, he, _, recognized, _⟩ := h.exists_of_cons hf
    have length := congrArg List.length he
    rw [List.length_append, List.length_append] at length
    obtain rfl : rest = [] := List.length_eq_zero_iff.mp (by omega)
    rwa [List.append_nil] at recognized
  · intro h
    have alone : recognize (f.2 ++ []) = some (f.1, f.2.length) := by rwa [List.append_nil]
    have whole := Spells.cons alone hf (.stop .nil)
    rwa [List.append_nil] at whole

/-! ## Every form on a line of its own -/

/-- A gap that stands in front of any text. The line of a comment ends in it. -/
inductive Filler : Text → Prop
  | nil : Filler []
  | blank {c : CodePoint} {cs : Text} (blank : isBlank c = true) (rest : Filler cs) :
      Filler (c :: cs)
  | block {body cs : Text} (inside : ¬ ("'/" : Text) <:+: body) (rest : Filler cs) :
      Filler (("/'" : Text) ++ body ++ ("'/" : Text) ++ cs)
  | line {body cs : Text} (inside : .scalar '\n' ∉ body) (rest : Filler cs) :
      Filler (("'" : Text) ++ body ++ .scalar '\n' :: cs)

theorem Filler.gap {gap : Text} (h : Filler gap) (behind : Text) : Gap gap behind := by
  induction h with
  | nil => exact .nil
  | blank blank _ ih => exact .blank blank ih
  | block inside _ ih => exact .block inside ih
  | line inside _ ih => exact .line inside (.inr ⟨_, rfl⟩) (.blank isBlank_newline ih)

/-- A gap that begins with a line feed. -/
def Break (gap : Text) : Prop := ∃ filler, gap = .scalar '\n' :: filler ∧ Filler filler

theorem Break.filler {gap : Text} (h : Break gap) : Filler gap := by
  obtain ⟨filler, rfl, hf⟩ := h
  exact .blank isBlank_newline hf

theorem Break.atLineEnd {gap : Text} (h : Break gap) (behind : Text) :
    AtLineEnd (gap ++ behind) := by
  obtain ⟨filler, rfl, _⟩ := h
  exact .inr ⟨_, rfl⟩

/-- Gaps to write so many texts with, one in front of each. Only the first text
may stand without one. -/
structure Layout (count : Nat) where
  gaps : List Text
  length_eq : gaps.length = count
  first : ∀ gap ∈ gaps.head?, gap = [] ∨ Break gap
  others : ∀ gap ∈ gaps.tail, Break gap

/-- Texts in order, each behind its gap. -/
def interleave (gaps texts : List Text) : Text := (List.zipWith (· ++ ·) gaps texts).flatten

def Layout.write {count : Nat} (layout : Layout count) (texts : List Text) : Text :=
  interleave layout.gaps texts

theorem interleave_cons (gap text : Text) (gaps texts : List Text) :
    interleave (gap :: gaps) (text :: texts) = gap ++ (text ++ interleave gaps texts) := by
  unfold interleave
  rw [List.zipWith_cons_cons, List.flatten_cons, List.append_assoc]

/-- Behind the first gap each form stands on a line of its own and is recognized
in front of the next line feed, or of the end. -/
theorem Spells.interleave {forms : List Form} {source : Text} (h : Spells forms source)
    {gap : Text} {gaps : List Text} (length : gaps.length + 1 = forms.length) (first : Filler gap)
    (others : ∀ g ∈ gaps, Break g) :
    Spells forms (Token.interleave (gap :: gaps) (forms.map Prod.snd)) := by
  induction h generalizing gap gaps with
  | stop _ =>
    rw [List.map_cons, interleave_cons, List.nil_append]
    obtain rfl : gaps = [] := List.length_eq_zero_iff.mp (Nat.succ.inj length)
    show Spells _ (gap ++ [])
    rw [List.append_nil]
    exact .stop (first.gap [])
  | mark _ recognized =>
    rw [List.map_cons, interleave_cons]
    obtain rfl : gaps = [] := List.length_eq_zero_iff.mp (Nat.succ.inj length)
    exact .mark (first.gap _) (recognize_lineEnd (.inl rfl) recognized)
  | token _ recognized continues rest ih =>
    rw [List.map_cons, interleave_cons]
    obtain ⟨form, forms, rfl⟩ := List.exists_cons_of_ne_nil rest.ne_nil
    cases gaps with
    | nil => cases length
    | cons g gaps =>
      have feed := others g List.mem_cons_self
      have rest := ih (Nat.succ.inj length) feed.filler fun g hg =>
        others g (List.mem_cons_of_mem _ hg)
      have ends := feed.atLineEnd (form.2 ++ Token.interleave gaps (forms.map Prod.snd))
      rw [List.map_cons, interleave_cons] at rest ⊢
      exact .token (first.gap _) (recognize_lineEnd ends recognized) continues rest

end Token

/-- The texts of the tokens, written out with gaps that begin with line feeds,
have the same tokens. -/
theorem exists_tokenize_write {source : Text} {tokens : List Token}
    (h : tokenize source = .ok tokens) (layout : Token.Layout tokens.length) :
    ∃ again, tokenize (layout.write (tokens.map Token.text)) = .ok again ∧
      again.map Token.form = tokens.map Token.form := by
  have spells := exists_tokenize_iff_spells.mp ⟨tokens, h, rfl⟩
  have texts : tokens.map Token.text = (tokens.map Token.form).map Prod.snd := by
    rw [List.map_map]; rfl
  obtain ⟨gaps, length, first, others⟩ := layout
  rw [exists_tokenize_iff_spells, texts]
  cases gaps with
  | nil =>
    exact absurd (List.length_eq_zero_iff.mp length.symm) (by rintro rfl; exact spells.ne_nil rfl)
  | cons gap gaps =>
    refine spells.interleave (by rw [List.length_map]; exact length) ?_ others
    rcases first gap rfl with rfl | first
    · exact .nil
    · exact first.filler

end ClassGraph
