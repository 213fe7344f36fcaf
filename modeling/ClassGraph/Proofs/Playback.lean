import ClassGraph.Proofs.Spelling

/-! # A reader plays back its stream

The tokens of a text and what they end in are one sequence without an end: behind
the tokens the end mark comes again and again, or the error does. However a reader
is called, its readings are this sequence from the start, and what it remembers is
the part of the sequence that it has returned. A failed reading goes past a gap.
The reader stands elsewhere then, but reads the same from there.
-/

namespace ClassGraph

namespace Token

theorem Cursor.skipGap_behindGap (c : Cursor) : c.behindGap.skipGap = c.skipGap := by
  fun_induction Cursor.behindGap c with
  | case1 c n hn _ ih => rw [ih, Cursor.skipGap_of_some hn]
  | case2 c => rfl

theorem readNext_behindGap (c : Cursor) : readNext c.behindGap = readNext c := by
  unfold readNext
  rw [Cursor.skipGap_behindGap]

/-- Every token takes a character at least. -/
theorem length_readAll_le (c : Cursor) : (readAll c).1.length ≤ c.rest.length := by
  fun_induction readAll c with
  | case1 c e h => exact Nat.zero_le _
  | case2 c mark h => exact Nat.zero_le _
  | case3 c token rest h shorter tokens ending hr ih =>
    rw [hr] at ih
    change tokens.length ≤ rest.rest.length at ih
    show (token :: tokens).length ≤ c.rest.length
    rw [List.length_cons]
    omega

/-! ## The sequence of a text -/

variable {source : Text} {n : Nat} {t : Token} {e : LexError}

/-- The token with a number. From the end on it is the end mark, or the error. -/
def nth (source : Text) (n : Nat) : Except LexError Token :=
  match (stream source).1[n]? with
  | some t => .ok t
  | none => (stream source).2.map EndMark.token

/-- The tokens among the first so many. -/
def returned (source : Text) (n : Nat) : List Token :=
  (List.range n).filterMap fun i => (nth source i).toOption

theorem nth_of_lt (h : n < (stream source).1.length) :
    nth source n = .ok (stream source).1[n] := by
  unfold nth
  rw [List.getElem?_eq_getElem h]

theorem nth_of_le (h : (stream source).1.length ≤ n) :
    nth source n = (stream source).2.map EndMark.token := by
  unfold nth
  rw [List.getElem?_eq_none h]

/-- An error comes behind all tokens, and then for ever. -/
theorem nth_eq_error_iff : nth source n = .error e ↔
    (stream source).1.length ≤ n ∧ (stream source).2 = .error e := by
  constructor
  · intro h
    by_cases within : n < (stream source).1.length
    · rw [nth_of_lt within] at h
      cases h
    · have behind := Nat.le_of_not_lt within
      rw [nth_of_le behind] at h
      cases ending : (stream source).2 with
      | ok mark => rw [ending] at h; cases h
      | error e' => rw [ending] at h; cases h; exact ⟨behind, rfl⟩
  · intro h
    rw [nth_of_le h.1, h.2]
    rfl

theorem returned_succ_of_ok (h : nth source n = .ok t) :
    returned source (n + 1) = returned source n ++ [t] := by
  unfold returned
  rw [List.range_succ, List.filterMap_append, List.filterMap_cons, h]
  rfl

theorem returned_succ_of_error (h : nth source n = .error e) :
    returned source (n + 1) = returned source n := by
  unfold returned
  rw [List.range_succ, List.filterMap_append, List.filterMap_cons, h]
  exact List.append_nil _

end Token

namespace Lexer

open Token (stream nth returned)

/-! ## Calls of a reader -/

inductive Call where
  | next
  | previous
  /-- Reads on to the end mark. -/
  | drain
deriving DecidableEq, Repr

inductive Reply where
  | next (found : Except LexError Token)
  | previous (token : Option Token)
  | drain (found : Except LexError (List Token))
deriving DecidableEq, Repr

def call (l : Lexer) : Call → Reply × Lexer
  | .next => (.next l.next.1, l.next.2)
  | .previous => (.previous l.previous, l)
  | .drain => (.drain l.drain.1, l.drain.2)

def run (l : Lexer) : List Call → List Reply × Lexer
  | [] => ([], l)
  | c :: calls => ((l.call c).1 :: ((l.call c).2.run calls).1, ((l.call c).2.run calls).2)

/-- Reading on to the end is so many readings of one token. The last of them is not
listed, and where it fails nothing is. -/
theorem drain_eq_run (l : Lexer) : ∃ (tokens : List Token) (last : Except LexError Token),
    l.run (List.replicate (tokens.length + 1) .next) =
        (tokens.map (fun t => .next (.ok t)) ++ [.next last], l.drain.2) ∧
      l.drain.1 = last.map fun _ => tokens := by
  fun_induction Lexer.drain l with
  | case1 l e m hn =>
    refine ⟨[], .error e, ?_, rfl⟩
    simp only [List.length_nil, List.replicate, run, call, hn, List.map_nil, List.nil_append]
  | case2 l t m hn mark hf =>
    refine ⟨[], .ok t, ?_, rfl⟩
    simp only [List.length_nil, List.replicate, run, call, hn, List.map_nil, List.nil_append]
  | case3 l t m hn hf _ e k hd ih =>
    obtain ⟨tokens, last, ran, listed⟩ := ih
    rw [hd] at ran listed
    refine ⟨t :: tokens, last, ?_, ?_⟩
    · rw [List.length_cons, List.replicate_succ, run, call, hn, ran]
      rfl
    · cases last with
      | ok _ => cases listed
      | error _ => exact listed
  | case4 l t m hn hf _ ts k hd ih =>
    obtain ⟨tokens, last, ran, listed⟩ := ih
    rw [hd] at ran listed
    refine ⟨t :: tokens, last, ?_, ?_⟩
    · rw [List.length_cons, List.replicate_succ, run, call, hn, ran]
      rfl
    · cases last with
      | ok _ => cases listed; rfl
      | error _ => cases listed

/-! ## What the replies should be -/

/-- The reply to a call behind so many readings: the next of the sequence, the last
token but one among those returned, or all tokens that are left. -/
def Call.reply (source : Text) (n : Nat) : Call → Reply
  | next => .next (nth source n)
  | previous => .previous (returned source n).dropLast.getLast?
  | drain => .drain ((stream source).2.map fun _ => (stream source).1.drop n)

/-- The number of readings behind a call. All tokens that are left are read one by
one, and then what they end in. -/
def Call.readings (source : Text) (n : Nat) : Call → Nat
  | next => n + 1
  | previous => n
  | drain => max n (stream source).1.length + 1

def replies (source : Text) (n : Nat) : List Call → List Reply
  | [] => []
  | c :: calls => c.reply source n :: replies source (c.readings source n) calls

/-- Behind an error the replies are the same after any number of readings. -/
theorem replies_of_error {source : Text} {e : LexError} (failed : (stream source).2 = .error e)
    (calls : List Call) {m n : Nat} (hm : (stream source).1.length ≤ m)
    (hn : (stream source).1.length ≤ n) : replies source m calls = replies source n calls := by
  have settled {k : Nat} (hk : (stream source).1.length ≤ k) :
      returned source k = returned source (stream source).1.length := by
    induction k, hk using Nat.le_induction with
    | base => rfl
    | succ k hk ih =>
      rw [Token.returned_succ_of_error (Token.nth_eq_error_iff.mpr ⟨hk, failed⟩), ih]
  have same (c : Call) : c.reply source m = c.reply source n := by
    cases c with
    | next => rw [Call.reply, Call.reply, Token.nth_of_le hm, Token.nth_of_le hn]
    | previous => rw [Call.reply, Call.reply, settled hm, settled hn]
    | drain => rw [Call.reply, Call.reply, failed]; rfl
  have behind (c : Call) {k : Nat} (hk : (stream source).1.length ≤ k) :
      (stream source).1.length ≤ c.readings source k := by
    cases c with
    | next => exact Nat.le_succ_of_le hk
    | previous => exact hk
    | drain => exact Nat.le_succ_of_le (Nat.le_max_right _ _)
  cases calls with
  | nil => rfl
  | cons c calls =>
    rw [replies, replies, same, replies_of_error failed calls (behind c hm) (behind c hn)]

/-! ## The replies that a reader gives -/

variable {source : Text} {n : Nat} {l : Lexer}

/-- A reader behind so many readings: it remembers the last two tokens that were
returned, and has the rest of the sequence in front of it. -/
structure Follows (source : Text) (n : Nat) (l : Lexer) : Prop where
  latest : l.latest = (returned source n).getLast?
  previous : l.previous = (returned source n).dropLast.getLast?
  ahead : l.finish = none →
    Token.readAll l.cursor = ((stream source).1.drop n, (stream source).2)
  inside : l.finish = none → ∀ mark, (stream source).2 = .ok mark → n ≤ (stream source).1.length
  ended : ∀ mark, l.finish = some mark →
    (stream source).2 = .ok mark ∧ (stream source).1.length < n

theorem follows_ofText (source : Text) : Follows source 0 (ofText source) :=
  ⟨rfl, rfl, fun _ => rfl, fun _ _ _ => Nat.zero_le _, nofun⟩

/-- What is noted of a token that was returned. -/
theorem Follows.note (h : Follows source n l) {t : Token} (returns : nth source n = .ok t) :
    (l.note t).latest = (returned source (n + 1)).getLast? ∧
      (l.note t).previous = (returned source (n + 1)).dropLast.getLast? := by
  rw [Token.returned_succ_of_ok returns, List.getLast?_concat, List.dropLast_concat]
  exact ⟨rfl, h.latest⟩

theorem Follows.next (h : Follows source n l) :
    l.next.1 = nth source n ∧ Follows source (n + 1) l.next.2 := by
  cases hf : l.finish with
  | some mark =>
    obtain ⟨ending, beyond⟩ := h.ended mark hf
    have returns : nth source n = .ok mark.token := by
      rw [Token.nth_of_le (Nat.le_of_lt beyond), ending]
      rfl
    obtain ⟨latest, previous⟩ := h.note returns
    simp only [Lexer.next, hf, returns, true_and]
    refine ⟨latest, previous, ?_, ?_, ?_⟩
    · intro open_
      cases hf.symm.trans open_
    · intro open_
      cases hf.symm.trans open_
    · intro mark' hm
      cases hf.symm.trans hm
      exact ⟨ending, Nat.lt_succ_of_lt beyond⟩
  | none =>
    have ahead := h.ahead hf
    cases found : Token.readNext l.cursor with
    | error e =>
      rw [Token.readAll_of_error found] at ahead
      obtain ⟨none_left, ending⟩ := Prod.mk.inj ahead
      have behind := List.drop_eq_nil_iff.mp none_left.symm
      have fails : nth source n = .error e := Token.nth_eq_error_iff.mpr ⟨behind, ending.symm⟩
      simp only [Lexer.next, hf, found, fails, true_and]
      refine ⟨?_, ?_, ?_, ?_, ?_⟩
      · rw [Token.returned_succ_of_error fails]
        exact h.latest
      · rw [Token.returned_succ_of_error fails]
        exact h.previous
      · intro _
        have again := Token.readAll_of_error ((Token.readNext_behindGap l.cursor).trans found)
        rw [List.drop_eq_nil_iff.mpr (Nat.le_succ_of_le behind), ← ending]
        exact again
      · intro _ mark marked
        rw [marked] at ending
        cases ending
      · exact nofun
    | finish mark =>
      rw [Token.readAll_of_finish found] at ahead
      obtain ⟨none_left, ending⟩ := Prod.mk.inj ahead
      have behind := List.drop_eq_nil_iff.mp none_left.symm
      have returns : nth source n = .ok mark.token := by
        rw [Token.nth_of_le behind, ← ending]
        rfl
      obtain ⟨latest, previous⟩ := h.note returns
      simp only [Lexer.next, hf, found, returns, true_and]
      refine ⟨latest, previous, nofun, nofun, ?_⟩
      intro mark' hm
      cases hm
      exact ⟨ending.symm, Nat.lt_succ_of_le behind⟩
    | token t rest =>
      rw [Token.readAll_of_token found] at ahead
      obtain ⟨some_left, ending⟩ := Prod.mk.inj ahead
      have within : n < (stream source).1.length := by
        by_contra beyond
        rw [List.drop_eq_nil_iff.mpr (Nat.le_of_not_lt beyond)] at some_left
        cases some_left
      rw [List.drop_eq_getElem_cons within] at some_left
      obtain ⟨first, others⟩ := List.cons.inj some_left
      have returns : nth source n = .ok t := by rw [Token.nth_of_lt within, first]
      obtain ⟨latest, previous⟩ := h.note returns
      simp only [Lexer.next, hf, found, returns, true_and]
      refine ⟨latest, previous, ?_, ?_, ?_⟩
      · intro _
        exact Prod.ext others ending
      · intro _ _ _
        exact within
      · intro mark hm
        cases hf.symm.trans hm

/-- A reader that is not at the end behind a token had the token in front of it. -/
theorem Follows.drop_eq (h : Follows source (n + 1) l) (unfinished : l.finish = none) {t : Token}
    (returns : nth source n = .ok t) : n < (stream source).1.length ∧
      (stream source).1.drop n = t :: (stream source).1.drop (n + 1) := by
  have within : n < (stream source).1.length := by
    by_contra beyond
    rw [Token.nth_of_le (Nat.le_of_not_lt beyond)] at returns
    cases ending : (stream source).2 with
    | ok mark => exact beyond (h.inside unfinished mark ending)
    | error e => rw [ending] at returns; cases returns
  rw [Token.nth_of_lt within] at returns
  exact ⟨within, by rw [List.drop_eq_getElem_cons within, Except.ok.inj returns]⟩

/-- Reading on to the end is reading token by token. -/
theorem Follows.drain (h : Follows source n l) :
    l.drain.1 = (stream source).2.map (fun _ => (stream source).1.drop n) ∧
      Follows source (max n (stream source).1.length + 1) l.drain.2 := by
  fun_induction Lexer.drain l generalizing n with
  | case1 l e m hn =>
    obtain ⟨reads, follows⟩ := h.next
    rw [hn] at reads follows
    obtain ⟨behind, ending⟩ := Token.nth_eq_error_iff.mp reads.symm
    rw [ending, Nat.max_eq_left behind]
    exact ⟨rfl, follows⟩
  | case2 l t m hn mark hf =>
    obtain ⟨_, follows⟩ := h.next
    rw [hn] at follows
    obtain ⟨ending, beyond⟩ := follows.ended mark hf
    have behind := Nat.le_of_lt_succ beyond
    rw [ending, Nat.max_eq_left behind, List.drop_eq_nil_iff.mpr behind]
    exact ⟨rfl, follows⟩
  | case3 l t m hn hf _ e k hd ih =>
    obtain ⟨reads, follows⟩ := h.next
    rw [hn] at reads follows
    obtain ⟨within, left⟩ := follows.drop_eq hf reads.symm
    obtain ⟨failed, later⟩ := ih follows
    rw [hd] at failed later
    rw [Nat.max_eq_right within] at later
    rw [Nat.max_eq_right (Nat.le_of_lt within)]
    refine ⟨?_, later⟩
    cases ending : (stream source).2 with
    | ok mark => rw [ending] at failed; cases failed
    | error e' => rw [ending] at failed; exact failed
  | case4 l t m hn hf _ ts k hd ih =>
    obtain ⟨reads, follows⟩ := h.next
    rw [hn] at reads follows
    obtain ⟨within, left⟩ := follows.drop_eq hf reads.symm
    obtain ⟨listed, later⟩ := ih follows
    rw [hd] at listed later
    rw [Nat.max_eq_right within] at later
    rw [Nat.max_eq_right (Nat.le_of_lt within), left]
    refine ⟨?_, later⟩
    cases ending : (stream source).2 with
    | ok mark =>
      rw [ending] at listed
      exact congrArg Except.ok (congrArg (t :: ·) (Except.ok.inj listed))
    | error e' => rw [ending] at listed; cases listed

theorem Follows.call (h : Follows source n l) (c : Call) :
    (l.call c).1 = c.reply source n ∧ Follows source (c.readings source n) (l.call c).2 := by
  cases c with
  | next =>
    obtain ⟨reads, follows⟩ := h.next
    exact ⟨congrArg Reply.next reads, follows⟩
  | previous => exact ⟨congrArg Reply.previous h.previous, h⟩
  | drain =>
    obtain ⟨reads, follows⟩ := h.drain
    exact ⟨congrArg Reply.drain reads, follows⟩

/-- The number of readings behind some calls. -/
def readings (source : Text) (n : Nat) (calls : List Call) : Nat :=
  calls.foldl (fun n c => c.readings source n) n

theorem Follows.run (h : Follows source n l) (calls : List Call) :
    (l.run calls).1 = replies source n calls ∧
      Follows source (readings source n calls) (l.run calls).2 := by
  induction calls generalizing n l with
  | nil => exact ⟨rfl, h⟩
  | cons c calls ih =>
    obtain ⟨replied, follows⟩ := h.call c
    obtain ⟨replied', follows'⟩ := ih follows
    exact ⟨by rw [Lexer.run, replies, replied, replied'], follows'⟩

end Lexer

open Token (stream nth) in
/-- Every text has one sequence of readings: its tokens, none of which is an end
mark, and no more than it has characters; then the end mark again and again, or the
error. Whatever calls a reader gets, its readings are this sequence in order, those
made by reading on to the end among them. It looks back at the last token but one
that was returned. Behind a failed reading all calls are answered as if it had not
been made. -/
theorem reader_follows_stream (source : Text) (calls : List Lexer.Call) :
    (∀ t ∈ (stream source).1, t.kind ≠ .finish) ∧ (stream source).1.length ≤ source.length ∧
    (∀ n, nth source n = if h : n < (stream source).1.length then .ok (stream source).1[n]
      else (stream source).2.map Token.EndMark.token) ∧
    let l := ((Lexer.ofText source).run calls).2
    ((Lexer.ofText source).run calls).1 = Lexer.replies source 0 calls ∧
    (∃ tokens last, l.run (List.replicate (tokens.length + 1) .next) =
        (tokens.map (fun t => .next (.ok t)) ++ [.next last], l.drain.2) ∧
      l.drain.1 = last.map fun _ => tokens) ∧
    ∀ e m, l.next = (.error e, m) → ∀ more, (m.run more).1 = (l.run more).1 := by
  obtain ⟨replied, follows⟩ := (Lexer.follows_ofText source).run calls
  refine ⟨?_, Token.length_readAll_le (.ofText source), ?_, replied, Lexer.drain_eq_run _, ?_⟩
  · intro t ht
    exact Token.kind_ne_finish_of_mem_stream ht
  · intro n
    split
    · exact Token.nth_of_lt ‹_›
    · exact Token.nth_of_le (Nat.le_of_not_lt ‹_›)
  · intro e m failed more
    obtain ⟨reads, later⟩ := follows.next
    rw [failed] at reads later
    obtain ⟨behind, ending⟩ := Token.nth_eq_error_iff.mp reads.symm
    rw [(later.run more).1, (follows.run more).1]
    exact Lexer.replies_of_error ending more (Nat.le_succ_of_le behind) behind

/-- A comment that is never closed is met again and again behind its gap, and the
end mark is read again and again, whatever follows it. -/
theorem reader_follows_stream_past_ends :
    (∃ (source : Text) (keyword name : Token) (e : LexError) (l m : Lexer),
      source = ("class A\n /' x" : String) ∧
      keyword = ⟨.declare .concrete, "class", ⟨1, 1⟩⟩ ∧ name = ⟨.name, "A", ⟨1, 7⟩⟩ ∧
      e = ⟨.openComment, ⟨2, 2⟩⟩ ∧
      (Lexer.ofText source).run [.next, .previous, .next, .next, .previous, .drain] =
        ([.next (.ok keyword), .previous none, .next (.ok name), .next (.error e),
          .previous (some keyword), .drain (.error e)], l) ∧
      l.next = (.error e, m) ∧ ∀ more, (m.run more).1 = (l.run more).1) ∧
    ∃ (source : Text) (keyword name finish : Token),
      source = ("class A @enduml class B" : String) ∧
      keyword = ⟨.declare .concrete, "class", ⟨1, 1⟩⟩ ∧ name = ⟨.name, "A", ⟨1, 7⟩⟩ ∧
      finish = ⟨.finish, "@enduml", ⟨1, 9⟩⟩ ∧
      ((Lexer.ofText source).run [.next, .drain, .previous, .next, .previous, .drain]).1 =
        [.next (.ok keyword), .drain (.ok [name]), .previous (some name), .next (.ok finish),
          .previous (some finish), .drain (.ok [])] := by
  constructor
  · let source : Text := ("class A\n /' x" : String)
    let calls : List Lexer.Call := [.next, .previous, .next, .next, .previous, .drain]
    obtain ⟨_, _, _, replied, _, unseen⟩ := reader_follows_stream source calls
    have read : ((Lexer.ofText source).run calls).2.next.1 = .error ⟨.openComment, ⟨2, 2⟩⟩ := by
      decide +kernel
    refine ⟨source, _, _, _, _, _, rfl, rfl, rfl, rfl, Prod.ext (replied.trans ?_) rfl,
      Prod.ext read rfl, unseen _ _ (Prod.ext read rfl)⟩
    decide +kernel
  · let source : Text := ("class A @enduml class B" : String)
    let calls : List Lexer.Call := [.next, .drain, .previous, .next, .previous, .drain]
    refine ⟨source, _, _, _, rfl, rfl, rfl, rfl,
      (reader_follows_stream source calls).2.2.2.1.trans ?_⟩
    decide +kernel

end ClassGraph
