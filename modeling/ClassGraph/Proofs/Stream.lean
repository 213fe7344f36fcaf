import ClassGraph.Token.Feed

/-! # The tokens of a text stand one behind the other

Every token is read behind the place of the one before it, so no token of a
stream occurs twice in it. A reader that compares tokens may therefore take
equal tokens for the same one. The end mark is never listed among the tokens.
-/

namespace ClassGraph

theorem exists_ok_of_isOk {ε α : Type} {e : Except ε α} (h : e.isOk = true) : ∃ a, e = .ok a := by
  cases e with
  | ok a => exact ⟨a, rfl⟩
  | error _ => cases h

namespace Position

/-- The order of places in a text. -/
def Before (p q : Position) : Prop := p.line < q.line ∨ p.line = q.line ∧ p.column < q.column

theorem Before.trans {p q r : Position} (h : p.Before q) (h' : q.Before r) : p.Before r := by
  unfold Before at *; omega

theorem Before.irrefl (p : Position) : ¬ p.Before p := by
  unfold Before; omega

theorem before_step (p : Position) (c : CodePoint) : p.Before (p.step c) := by
  unfold Before step
  split
  · left; show p.line < p.line + 1; omega
  · right; exact ⟨rfl, by show p.column < p.column + 1; omega⟩

theorem eq_or_before_advance (p : Position) (cs : Text) :
    p.advance cs = p ∨ p.Before (p.advance cs) := by
  induction cs generalizing p with
  | nil => left; rfl
  | cons c cs ih =>
    right
    rw [advance_cons]
    rcases ih (p.step c) with h | h
    · rw [h]; exact before_step p c
    · exact (before_step p c).trans h

theorem before_advance (p : Position) {cs : Text} (h : cs ≠ []) : p.Before (p.advance cs) := by
  cases cs with
  | nil => exact absurd rfl h
  | cons c cs =>
    rw [advance_cons]
    rcases eq_or_before_advance (p.step c) cs with h | h
    · rw [h]; exact before_step p c
    · exact (before_step p c).trans h

end Position

namespace Token

theorem Cursor.eq_or_before_skipGap {c d : Cursor} (h : c.skipGap = .ok d) :
    d.position = c.position ∨ c.position.Before d.position := by
  fun_induction Cursor.skipGap c with
  | case1 c hn => cases h; left; rfl
  | case2 c hn => cases h
  | case3 c n hn _ ih =>
    have ha := c.position.eq_or_before_advance (c.rest.take n)
    change (c.advance n).position = _ ∨ Position.Before _ (c.advance n).position at ha
    rcases ih h with he | hb
    · rw [he]; exact ha
    · rcases ha with ha | ha
      · right; rw [← ha]; exact hb
      · right; exact ha.trans hb

theorem readHere_token {c rest : Cursor} {token : Token}
    (h : readHere c = .token token rest) :
    token.position = c.position ∧ token.kind ≠ .finish ∧ c.position.Before rest.position := by
  unfold readHere at h
  split at h
  · cases h
  · split at h
    · rename_i kind n hr
      obtain ⟨hn, hle⟩ := recognize_fits hr
      simp only at h
      split at h
      · cases h
      · rename_i hk
        simp only [Found.token.injEq] at h
        obtain ⟨rfl, rfl⟩ := h
        refine ⟨rfl, hk, Position.before_advance _ fun he => ?_⟩
        have := congrArg List.length he
        simp only [List.length_take, List.length_nil] at this
        omega
    · cases h

/-- A token that is read stands at the place where reading begins or behind
it, and reading goes on behind the token. -/
theorem readNext_token {c rest : Cursor} {token : Token}
    (h : readNext c = .token token rest) :
    (token.position = c.position ∨ c.position.Before token.position) ∧
      token.kind ≠ .finish ∧ token.position.Before rest.position := by
  unfold readNext at h
  split at h
  · cases h
  · rename_i d hd
    obtain ⟨hp, hk, hb⟩ := readHere_token h
    rw [hp]
    exact ⟨Cursor.eq_or_before_skipGap hd, hk, hb⟩

theorem readAll_ordered (c : Cursor) :
    (∀ t ∈ (readAll c).1, (t.position = c.position ∨ c.position.Before t.position) ∧
      t.kind ≠ .finish) ∧
    (readAll c).1.Pairwise fun t u => t.position.Before u.position := by
  fun_induction readAll c with
  | case1 c e h => simp
  | case2 c mark h => simp
  | case3 c token rest h _ tokens ending hr ih =>
    obtain ⟨hp, hk, hb⟩ := readNext_token h
    rw [hr] at ih
    obtain ⟨hall, hpair⟩ := ih
    have hbehind : ∀ t ∈ tokens, token.position.Before t.position := by
      intro t ht
      rcases (hall t ht).1 with he | hlt
      · rw [he]; exact hb
      · exact hb.trans hlt
    refine ⟨?_, List.pairwise_cons.mpr ⟨hbehind, hpair⟩⟩
    intro t ht
    rcases List.mem_cons.mp ht with rfl | ht
    · exact ⟨hp, hk⟩
    · refine ⟨.inr ?_, (hall t ht).2⟩
      rcases hp with he | hlt
      · rw [← he]; exact hbehind t ht
      · exact hlt.trans (hbehind t ht)

/-- No token occurs twice in a stream. -/
theorem nodup_stream (source : Text) : (stream source).1.Nodup := by
  apply (readAll_ordered (.ofText source)).2.imp
  intro t u h he
  exact Position.Before.irrefl _ (he ▸ h)

theorem kind_ne_finish_of_mem_stream {source : Text} {t : Token} (h : t ∈ (stream source).1) :
    t.kind ≠ .finish := ((readAll_ordered (.ofText source)).1 t h).2

end Token

/-- The tokens of a text up to the end are those of its stream, and the end mark. -/
theorem tokenize_eq_ok_iff {source : Text} {tokens : List Token} {finish : Token} :
    tokenize source = .ok (tokens ++ [finish]) ↔
      ∃ mark, Token.stream source = (tokens, .ok mark) ∧ finish = mark.token := by
  unfold tokenize
  split
  · rename_i read mark h
    rw [h]
    constructor
    · intro he
      obtain ⟨hr, hf⟩ := List.append_inj' (Except.ok.inj he) rfl
      cases hr; cases hf; exact ⟨mark, rfl, rfl⟩
    · intro h
      obtain ⟨m, hm, rfl⟩ := h
      cases hm; rfl
  · rename_i read e h
    rw [h]
    constructor
    · intro he; cases he
    · intro h
      obtain ⟨m, hm, _⟩ := h
      cases hm

/-- The tokens of a text are those of its stream, and the end mark behind them. -/
theorem exists_stream_of_tokenize {source : Text} {tokens : List Token}
    (h : tokenize source = .ok tokens) :
    ∃ read mark, Token.stream source = (read, .ok mark) ∧ tokens = read ++ [mark.token] := by
  unfold tokenize at h
  split at h
  · rename_i read mark hs
    cases h
    exact ⟨read, mark, hs, rfl⟩
  · cases h

/-- No token occurs twice, and the end mark is none of those in front of it. -/
theorem nodup_of_tokenize {source : Text} {tokens : List Token}
    (h : tokenize source = .ok tokens) : tokens.Nodup := by
  obtain ⟨read, mark, hs, rfl⟩ := exists_stream_of_tokenize h
  have once : read.Nodup := by
    have once := Token.nodup_stream source
    rwa [hs] at once
  refine List.nodup_append.mpr ⟨once, List.pairwise_singleton _ _, ?_⟩
  rintro t ht u hu rfl
  have listed : t ∈ (Token.stream source).1 := by rw [hs]; exact ht
  exact Token.kind_ne_finish_of_mem_stream listed (by rw [List.mem_singleton.mp hu]; rfl)

/-- The tokens in front of the end mark are those of the stream. -/
theorem stream_of_tokenize {source : Text} {tokens : List Token}
    (h : tokenize source = .ok tokens) :
    ∃ mark, Token.stream source = (tokens.takeWhile (·.kind ≠ .finish), .ok mark) := by
  unfold tokenize at h
  split at h
  · rename_i read mark hs
    cases h
    have unmarked : ∀ t ∈ read, decide (t.kind ≠ .finish) = true := by
      intro t ht
      rw [decide_eq_true_iff]
      exact Token.kind_ne_finish_of_mem_stream (by rw [hs]; exact ht)
    refine ⟨mark, hs.trans ?_⟩
    rw [List.takeWhile_append_of_pos unmarked]
    exact congrArg (·, Except.ok mark) (List.append_nil read).symm
  · cases h

end ClassGraph
