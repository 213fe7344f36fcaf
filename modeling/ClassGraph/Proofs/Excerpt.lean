import ClassGraph.Proofs.Alike
import ClassGraph.Proofs.Extension
import ClassGraph.Proofs.Json.Restoration
import ClassGraph.Source

/-! # A diagram that is cut out of a page

A page is searched for the marks of a diagram, in any case, without regard to the
tokens between them. What is cut out there is the same diagram as what stands there
with its marks. The search cannot begin inside a mark, since a mark has its sign in
front only. The rules cannot see the end mark from inside the body, since a line
end lies between them. And the token of the start mark means nothing to building,
except that a relation right behind it still has no name in front.
-/

namespace ClassGraph

open Text

namespace Page

/-! ## The search for a mark -/

/-- The letters of a word, each in either case. -/
def Spelled (word s : Text) : Prop := List.Forall₂ (fun w c => isLetterOf w c = true) word s

/-- A word occurs, in any case. -/
def Mentions (word text : Text) : Prop := ∃ s, s <:+: text ∧ Spelled word s

variable {word text rest : Text}

theorem stripAnyCase?_eq_some_iff :
    stripAnyCase? word text = some rest ↔ ∃ s, text = s ++ rest ∧ Spelled word s := by
  induction word generalizing text with
  | nil =>
    constructor
    · intro h
      exact ⟨[], Option.some.inj h, .nil⟩
    · intro h
      obtain ⟨s, rfl, spelled⟩ := h
      rw [List.forall₂_nil_left_iff.mp spelled]
      rfl
  | cons w word ih =>
    constructor
    · intro h
      cases text with
      | nil => cases h
      | cons c text =>
        rw [stripAnyCase?] at h
        split at h
        · obtain ⟨s, rfl, spelled⟩ := ih.mp h
          exact ⟨c :: s, rfl, .cons ‹_› spelled⟩
        · cases h
    · intro h
      obtain ⟨s, rfl, spelled⟩ := h
      obtain ⟨c, letters, letter, others, rfl⟩ := List.forall₂_cons_left_iff.mp spelled
      rw [List.cons_append, stripAnyCase?, if_pos letter]
      exact ih.mpr ⟨letters, rfl, others⟩

theorem mentions_iff : Mentions word text ↔
    (breakWhere (fun cs => (stripAnyCase? word cs).isSome) text).isSome = true := by
  rw [Option.isSome_iff_ne_none, Ne, breakWhere_eq_none_iff]
  constructor
  · intro h absent
    obtain ⟨s, hs, spelled⟩ := h
    obtain ⟨tail, ⟨rest, rfl⟩, suffix⟩ := List.infix_iff_prefix_suffix.mp hs
    have missed := absent _ suffix
    rw [stripAnyCase?_eq_some_iff.mpr ⟨s, rfl, spelled⟩] at missed
    cases missed
  · intro h
    by_contra unmentioned
    refine h fun tail suffix => ?_
    rw [Option.isSome_eq_false_iff, Option.isNone_iff_eq_none, Option.eq_none_iff_forall_ne_some]
    intro rest found
    obtain ⟨s, rfl, spelled⟩ := stripAnyCase?_eq_some_iff.mp found
    exact unmentioned ⟨s, (List.prefix_append s rest).isInfix.trans suffix.isInfix, spelled⟩

instance (word text : Text) : Decidable (Mentions word text) := decidable_of_iff _ mentions_iff.symm

/-- A word that has the sign in front only. -/
structure IsMark (mark : Text) : Prop where
  sign : mark.head? = some (.scalar '@')
  plain : ∀ w ∈ mark.tail, isLetterOf w '@' = false
  spelled : Spelled mark mark

theorem isMark_startMark : IsMark startMark where
  sign := rfl
  plain := by decide
  spelled := List.forall₂_same.mpr (by decide)

theorem isMark_endMark : IsMark endMark where
  sign := rfl
  plain := by decide
  spelled := List.forall₂_same.mpr (by decide)

/-- A mark that is found in front of another one does not reach into it. -/
theorem IsMark.mentions {mark : Text} (h : IsMark mark) {before s after : Text} (hne : s ≠ [])
    (hs : s <:+ before) (found : (stripAnyCase? mark (s ++ (mark ++ after))).isSome = true) :
    Mentions mark before := by
  obtain ⟨rest, hr⟩ := Option.isSome_iff_exists.mp found
  obtain ⟨word, he, spelled⟩ := stripAnyCase?_eq_some_iff.mp hr
  rcases List.append_eq_append_iff.mp he with ⟨l, hword, hl⟩ | ⟨l, hsl, _⟩
  · cases l with
    | nil =>
      rw [List.append_nil] at hword
      exact ⟨word, hword ▸ hs.isInfix, spelled⟩
    | cons d l =>
      -- the sign of the second mark would be a letter of the first one
      obtain ⟨a, tail, rfl⟩ := List.exists_cons_of_ne_nil (l := mark) (by
        intro empty
        rw [empty] at h
        cases h.sign)
      obtain ⟨c, t, rfl⟩ := List.exists_cons_of_ne_nil hne
      obtain rfl : a = .scalar '@' := Option.some.inj h.sign
      obtain rfl : .scalar '@' = d := (List.cons.inj hl).1
      rw [hword, List.cons_append] at spelled
      have inside := List.forall₂_drop_append _ _ _ (List.forall₂_cons.mp spelled).2
      obtain ⟨w, others, letter, _, hw⟩ := List.forall₂_cons_right_iff.mp inside
      have mem : w ∈ tail := List.mem_of_mem_drop (hw ▸ List.mem_cons_self)
      rw [h.plain w mem] at letter
      cases letter
  · subst hsl
    exact ⟨word, (List.prefix_append word l).isInfix.trans hs.isInfix, spelled⟩

/-- A mark is found behind a text without it. -/
theorem IsMark.break_eq {mark before after : Text} {found : Text → Bool} (h : IsMark mark)
    (absent : ¬ Mentions mark before)
    (finds : ∀ cs, found cs = true → (stripAnyCase? mark cs).isSome = true)
    (here : found (mark ++ after) = true) :
    breakWhere found (before ++ (mark ++ after)) = some (before, mark ++ after) := by
  refine breakWhere_eq_some_iff.mpr ⟨rfl, here, ?_⟩
  intro s hne hs
  by_contra earlier
  exact absent (h.mentions hne hs (finds _ (Bool.not_eq_false _ ▸ earlier)))

theorem IsMark.strip_eq {mark : Text} (h : IsMark mark) (after : Text) :
    stripAnyCase? mark (mark ++ after) = some after :=
  stripAnyCase?_eq_some_iff.mpr ⟨mark, rfl, h.spelled⟩

/-! ## The first diagram of a page -/

/-- A diagram between its marks, and what follows on the line of the end mark. -/
def framed (header body rest : Text) : Text :=
  startMark ++ (header ++ .scalar '\n' :: (body ++ (endMark ++ rest)))

variable {front header body : Text}

theorem cutMarked_framed (first : ¬ Mentions startMark front) (line : .scalar '\n' ∉ header)
    (ends : atWordEnd header = true) (last : ¬ Mentions endMark body) (rest : Text) :
    ∃ before, cutMarked (front ++ framed header body rest) = some ⟨before, body, rest⟩ := by
  have opens : breakWhere atStart (front ++ framed header body rest) =
      some (front, framed header body rest) := by
    refine isMark_startMark.break_eq first ?_ ?_
    · intro cs found
      unfold atStart at found
      split at found
      · rename_i hr
        rw [hr]
        rfl
      · cases found
    · unfold atStart
      rw [isMark_startMark.strip_eq]
      exact (atWordEnd_extend (.inr ⟨_, rfl⟩) header).trans ends
  have begins : splitAtWord ("\n" : Text) (framed header body rest) =
      some (startMark ++ header, body ++ (endMark ++ rest)) := by
    refine (splitAtWord_eq_some_iff (by decide)).mpr ⟨(List.append_assoc _ _ _).symm, ?_⟩
    intro feed
    rcases List.mem_append.mp (feed.subset List.mem_cons_self) with mark | inside
    · exact absurd mark (show .scalar '\n' ∉ startMark by decide)
    · exact line inside
  have closes : breakWhere atEnd (body ++ (endMark ++ rest)) = some (body, endMark ++ rest) := by
    refine isMark_endMark.break_eq last (fun _ found => found) ?_
    unfold atEnd
    rw [isMark_endMark.strip_eq]
    rfl
  refine ⟨front.length + (startMark ++ header).length + 1, ?_⟩
  unfold cutMarked
  simp only [opens, begins, closes, List.drop_left]

/-- A page file is read as its first diagram. -/
theorem load_first {files : FileTree} {path : String} {content : ByteArray}
    (page : Source.isPageSuffix (Files.Path.ofText path).suffix = true)
    (read : files.read (Files.Path.ofText path) = .ok content) {rest : Text}
    (text : decodeText content = some (front ++ framed header body rest))
    (first : ¬ Mentions startMark front) (line : .scalar '\n' ∉ header)
    (ends : atWordEnd header = true) (last : ¬ Mentions endMark body) :
    Source.load files path (some 0) = .ok body := by
  obtain ⟨before, cut⟩ := cutMarked_framed first line ends last rest
  obtain ⟨others, found⟩ : ∃ others, blocks (front ++ framed header body rest) =
      ⟨0 + before, body⟩ :: others := by
    unfold blocks marked
    rw [collect]
    split
    · rename_i none
      rw [cut] at none
      cases none
    · rename_i c some
      rw [cut] at some
      cases some
      exact ⟨_, rfl⟩
  have item : itemAt ((⟨0 + before, body⟩ : Block) :: others) 0 = .ok ⟨0 + before, body⟩ :=
    itemAt_natCast (Nat.zero_lt_succ _) (by decide)
  unfold Source.load Source.fromPage
  simp only [read, text, page, if_true, found, item]

end Page

namespace Token

/-! ## Forms in front of an end mark -/

/-- Whole lines, or nothing. -/
def EndsLine (cs : Text) : Prop := ∀ c ∈ cs.getLast?, c = .scalar '\n'

variable {cs gap behind source after : Text} {front forms : List Form}

theorem EndsLine.suffix {s : Text} (h : EndsLine cs) (hs : s <:+ cs) : EndsLine s := by
  obtain ⟨t, rfl⟩ := hs
  intro c hc
  refine h c ?_
  rw [List.getLast?_append, Option.mem_def.mp hc]
  rfl

/-- Behind whole lines no rule sees anything. -/
theorem recognize_append (h : EndsLine cs) (hne : cs ≠ []) (after : Text) :
    recognize (cs ++ after) = recognize cs := by
  have last := h _ (List.getLast?_eq_getLast_of_ne_nil hne)
  have lines : cs = cs.dropLast ++ [.scalar '\n'] := by
    rw [← last, List.dropLast_append_getLast]
  rw [lines, List.append_assoc, List.singleton_append, recognize_extend (.inr ⟨_, rfl⟩),
    recognize_extend (.inr ⟨_, rfl⟩)]

theorem Gap.append_behind (h : Gap gap behind) (ended : EndsLine (gap ++ behind)) (after : Text) :
    Gap gap (behind ++ after) := by
  induction h with
  | nil => exact .nil
  | blank blank _ ih => exact .blank blank (ih (ended.suffix (List.suffix_cons _ _)))
  | block inside _ ih =>
    rw [List.append_assoc] at ended
    exact .block inside (ih (ended.suffix (List.suffix_append _ _)))
  | @line body cs behind inside ends _ ih =>
    rw [List.append_assoc] at ended
    refine .line inside ?_ (ih (ended.suffix (List.suffix_append _ _)))
    rcases ends with empty | ⟨rest, feed⟩
    · -- the comment would go on to the end, which is a line feed
      rw [empty, List.append_nil] at ended
      have last := ended _ (List.getLast?_eq_getLast_of_ne_nil (List.cons_ne_nil _ _))
      have mem : CodePoint.scalar '\n' ∈ ("'" : Text) ++ body := last ▸ List.getLast_mem _
      rcases List.mem_append.mp mem with quote | mem
      · exact absurd quote (show CodePoint.scalar '\n' ∉ ("'" : Text) by decide)
      · exact absurd mem inside
    · rw [← List.append_assoc, feed]
      exact .inr ⟨rest ++ after, rfl⟩

/-- The forms of whole lines that are read to their end, and behind them those of
any text. -/
theorem Spells.append_behind (h : Spells (front ++ [(.finish, [])]) source)
    (ended : EndsLine source) (h' : Spells forms after) :
    Spells (front ++ forms) (source ++ after) := by
  generalize hw : front ++ [(.finish, [])] = whole at h
  induction h generalizing front with
  | stop skipped =>
    obtain ⟨rfl, _⟩ := List.append_eq_singleton_iff.mp hw |>.resolve_right (by simp)
    exact h'.gap (skipped.append_behind (by rwa [List.append_nil]) after)
  | @mark gap text rest _ recognized =>
    obtain ⟨rfl, he⟩ := List.append_eq_singleton_iff.mp hw |>.resolve_right (by simp)
    cases he
    exact absurd (recognize_fits recognized).1 (Nat.lt_irrefl 0)
  | @token gap text rest kind others skipped recognized continues _ ih =>
    cases front with
    | nil =>
      cases hw
      exact absurd rfl continues
    | cons f front =>
      obtain ⟨rfl, hf⟩ := List.cons.inj hw
      have here : EndsLine (text ++ rest) := ended.suffix (List.suffix_append _ _)
      have some : text ++ rest ≠ [] := by
        intro empty
        have fits := (recognize_fits recognized).1
        rw [(List.append_eq_nil_iff.mp empty).1] at fits
        exact absurd fits (Nat.lt_irrefl 0)
      rw [List.append_assoc, List.append_assoc]
      refine .token ?_ ?_ continues (ih (here.suffix (List.suffix_append _ _)) hf)
      · rw [← List.append_assoc]
        exact skipped.append_behind ended after
      · rw [← List.append_assoc, recognize_append here some, recognized]

theorem eq_endMark_of_recognize {text rest : Text}
    (h : recognize (text ++ rest) = some (.finish, text.length)) : text = Page.endMark := by
  generalize hk : TokenKind.finish = kind at h
  cases finds_of_recognize h with
  | keyword mem fits =>
    have only : ∀ row ∈ keywords, .finish = row.1 → row.2 = Page.endMark := by decide
    exact (eq_of_keyword fits).trans (only _ mem hk)
  | brace mem _ =>
    have other : ∀ row ∈ braces, .finish ≠ row.1 := by decide
    exact absurd hk (other _ mem)
  | _ => cases hk

/-- Where no end mark is mentioned, reading goes on to the end of the text. -/
theorem Spells.exists_of_not_mentions (h : Spells forms source)
    (unmarked : ¬ Page.Mentions Page.endMark source) :
    ∃ front, forms = front ++ [(.finish, [])] := by
  induction h with
  | stop _ => exact ⟨[], rfl⟩
  | @mark gap text rest _ recognized =>
    obtain rfl := eq_endMark_of_recognize recognized
    refine absurd ⟨Page.endMark, ?_, Page.isMark_endMark.spelled⟩ unmarked
    exact (List.prefix_append _ rest).isInfix.trans (List.suffix_append gap _).isInfix
  | @token gap text rest kind forms _ _ _ _ ih =>
    have behind : rest <:+ gap ++ (text ++ rest) :=
      (List.suffix_append text rest).trans (List.suffix_append gap _)
    obtain ⟨front, rfl⟩ := ih fun ⟨s, hs, spelled⟩ =>
      unmarked ⟨s, hs.trans behind.isInfix, spelled⟩
    exact ⟨_ :: front, rfl⟩

/-- The start mark takes the line along. -/
theorem startRule_of_line {header after : Text} (line : .scalar '\n' ∉ header)
    (ends : atWordEnd header = true) (ha : AtLineEnd after) :
    startRule (Page.startMark ++ header ++ after) = some (Page.startMark ++ header).length := by
  have word := keyword_eq_some_iff.mpr ⟨⟨header ++ after,
    List.append_assoc Page.startMark header after, (atWordEnd_extend ha header).trans ends⟩, rfl⟩
  refine Option.map_eq_some_iff.mpr ⟨_, word, ?_⟩
  rw [List.append_assoc, List.drop_left, List.length_append, lineLength, runLength,
    takeWhile_line line ha]

/-- The forms of whole lines without an end mark, behind a start mark and in front
of an end mark. -/
theorem spells_framed {header body rest : Text} (h : Spells (front ++ [(.finish, [])]) body)
    (line : .scalar '\n' ∉ header) (begins : atWordEnd header = true) (ended : EndsLine body)
    (ends : atWordEnd rest = true) :
    Spells ((.start, Page.startMark ++ header) :: front ++ [(.finish, Page.endMark)])
      (Page.framed header body rest) := by
  have closes : Spells [(.finish, Page.endMark)] (Page.endMark ++ rest) := by
    refine .mark .nil ?_
    have word : keyword ("@enduml" : Text) (("@enduml" : Text) ++ rest) = some 7 :=
      keyword_eq_some_iff.mpr ⟨⟨rest, rfl, ends⟩, rfl⟩
    show recognize (("@enduml" : Text) ++ rest) = some (.finish, 7)
    simp only [recognize, rules, List.findSome?_cons, word]
    rfl
  have feed : Gap [.scalar '\n'] (body ++ (Page.endMark ++ rest)) := .blank isBlank_newline .nil
  have inside := (h.append_behind ended closes).gap feed
  have opens := startRule_of_line line begins (.inr ⟨body ++ (Page.endMark ++ rest), rfl⟩)
  have whole := Spells.token Gap.nil (recognize_of_startRule opens) (by decide) inside
  rwa [List.nil_append, List.append_assoc] at whole

theorem saysSame_of_form {t u : Token} (h : t.form = u.form) : t.SaysSame u := by
  obtain ⟨kind, text, position⟩ := t
  obtain ⟨kind', text', position'⟩ := u
  cases h
  exact ⟨rfl, fun _ => rfl, fun _ _ => rfl⟩

end Token

namespace Builder

open Build

/-! ## Building begins behind the start mark -/

/-- Nothing is built yet, and the last token is no name. -/
structure Bare (b : Builder) : Prop where
  graph : b.graph = .empty
  packages : b.packages = []
  depth : b.depth = 0
  pending : b.pending = none
  chain : b.chain = none
  unnamed : ∀ t ∈ b.feed.latest, t.kind ≠ .name

/-- The error at a relation with nothing in front of it. -/
def orphanError (t : Token) : ParseError :=
  match t.kind with
  | .arrow _ => .missingOperand t
  | _ => .missingSubject t

variable {R : Token → Token → Prop} {b c : Builder} {t : Token}

theorem Bare.keywordSubject (h : Bare b) (keyword : Token) :
    (keywordSubject keyword).run (b.pass t) =
      (.error (.parse (.missingSubject keyword)), b.pass t) := by
  have fails : keywordSubject.lastDeclared keyword (b.pass t) = fail (.missingSubject keyword) := by
    unfold keywordSubject.lastDeclared
    rw [show (b.pass t).graph = .empty from h.graph]
    rfl
  have settled : { b.pass t with pending := none } = b.pass t := by
    rw [← show (b.pass t).pending = none from h.pending]
  have previous : (b.pass t).feed.previous = b.feed.latest := rfl
  have chain : (b.pass t).chain = none := h.chain
  unfold Builder.keywordSubject settle
  rw [run_bind, run_change]
  show Build.run _ { b.pass t with pending := none } = _
  rw [settled, run_bind, run_state]
  simp only [previous, chain]
  cases hl : b.feed.latest with
  | none => rw [fails, run_fail]
  | some name =>
    simp only [if_neg (h.unnamed name hl)]
    rw [fails, run_fail]

theorem Bare.leftOperand (h : Bare b) (arrow : Token) :
    (leftOperand arrow).run (b.pass t) = (.error (.parse (.missingOperand arrow)), b.pass t) := by
  have previous : (b.pass t).feed.previous = b.feed.latest := rfl
  unfold Builder.leftOperand
  simp only [run_bind, run_state, previous]
  cases hl : b.feed.latest with
  | none => rw [run_fail]
  | some name =>
    simp only [if_neg (h.unnamed name hl)]
    rw [run_fail]

theorem Bare.step_of_relation (h : Bare b) (next : b.next? = some t)
    (relation : t.kind.isRelation = true) :
    step.run b = (.error (.parse (orphanError t)), b.pass t) := by
  have pending : (b.pass t).pending = none := h.pending
  rw [step_of_token next]
  unfold statement
  simp only [run_bind, run_state, pending]
  unfold handle orphanError
  cases hk : t.kind with
  | relate kind =>
    unfold keywordRelation
    simp only [run_bind, h.keywordSubject]
  | arrow side =>
    unfold drawArrow
    simp only [run_bind, h.leftOperand]
  | _ => rw [hk] at relation; cases relation

/-- Two runs that begin so and have corresponding tokens in front of them have one
result. -/
theorem Bare.sameResult (pairing : Token.Pairing R) (hb : Bare b) (hc : Bare c)
    (ahead : List.Forall₂ R b.feed.ahead c.feed.ahead)
    (ending : b.feed.ending.isOk = c.feed.ending.isOk) : SameResult b.run.1 c.run.1 := by
  by_cases first : ∃ t, b.next? = some t ∧ t.kind.isRelation = true
  · obtain ⟨t, next, relation⟩ := first
    obtain ⟨rest, hr⟩ := List.head?_eq_some_iff.mp next
    rw [hr, List.forall₂_cons_left_iff] at ahead
    obtain ⟨u, us, ht, _, hu⟩ := ahead
    have next' : c.next? = some u := by rw [next?, hu]; rfl
    have same := (pairing.saysSame ht).kind
    rw [run_of_error (hb.step_of_relation next relation),
      run_of_error (hc.step_of_relation next' (same ▸ relation))]
    refine .inr ⟨_, _, rfl, rfl, ?_⟩
    unfold orphanError
    rw [← same]
    cases t.kind <;> rfl
  · refine Abreast.run pairing ⟨?_, ?_, ?_, ?_, ?_, ahead, ending, ?_⟩
    · rw [hb.graph, hc.graph]
    · rw [hb.packages, hc.packages]
    · rw [hb.depth, hc.depth]
    · rw [hb.pending, hc.pending]
      exact .none
    · intro t u _
      unfold recorded
      rw [hb.chain, hc.chain]
    · intro t next relation
      exact absurd ⟨t, next, relation⟩ first

theorem bare_ofText (source : Text) : Bare (.ofText source) := ⟨rfl, rfl, rfl, rfl, rfl, nofun⟩

/-- Behind a start mark building begins again. -/
theorem Bare.pass_start (h : Bare b) (start : t.kind = .start) : Bare (b.pass t) where
  graph := h.graph
  packages := h.packages
  depth := h.depth
  pending := h.pending
  chain := h.chain
  unnamed := by
    intro u hu
    cases hu
    rw [start]
    decide

theorem Bare.run_start (h : Bare b) (next : b.next? = some t) (start : t.kind = .start) :
    b.run = (b.pass t).run := by
  have pending : (b.pass t).pending = none := h.pending
  refine Proceeds.run_eq (show step.run b = (.ok false, b.pass t) from ?_)
  rw [step_of_token next]
  unfold statement handle
  simp only [run_bind, run_state, pending, start, run_pure]

end Builder

variable {front header body rest : Text} {tokens : List Token}

/-- The tokens of whole lines without an end mark are found again between marks. -/
theorem exists_stream_framed (line : .scalar '\n' ∉ header) (begins : atWordEnd header = true)
    (ended : Token.EndsLine body) (unmarked : ¬ Page.Mentions Page.endMark body)
    (readable : tokenize body = .ok tokens) (ends : atWordEnd rest = true) :
    ∃ read mark start read' mark', Token.stream body = (read, .ok mark) ∧
      Token.stream (Page.framed header body rest) = (start :: read', .ok mark') ∧
      start.kind = .start ∧ List.Forall₂ Token.SaysSame read read' := by
  have spells := exists_tokenize_iff_spells.mp ⟨tokens, readable, rfl⟩
  obtain ⟨front, forms⟩ := spells.exists_of_not_mentions unmarked
  rw [forms] at spells
  obtain ⟨tokens', readable', forms'⟩ :=
    exists_tokenize_iff_spells.mpr (Token.spells_framed spells line begins ended ends)
  obtain ⟨read, mark, hs, rfl⟩ := exists_stream_of_tokenize readable
  obtain ⟨whole, mark', hs', rfl⟩ := exists_stream_of_tokenize readable'
  rw [List.map_append] at forms forms'
  obtain ⟨start, read', rfl, opens, others⟩ :=
    List.map_eq_cons_iff.mp (List.append_inj' forms' rfl).1
  refine ⟨read, mark, start, read', mark', hs, hs', congrArg Prod.fst opens, ?_⟩
  have equal : List.Forall₂ Eq (read.map Token.form) (read'.map Token.form) := by
    rw [(List.append_inj' forms rfl).1, others]
    exact List.forall₂_refl _
  rw [List.forall₂_map_left_iff, List.forall₂_map_right_iff] at equal
  exact equal.imp fun _ _ => Token.saysSame_of_form

theorem sameResult_framed (line : .scalar '\n' ∉ header) (begins : atWordEnd header = true)
    (ended : Token.EndsLine body) (unmarked : ¬ Page.Mentions Page.endMark body)
    (readable : tokenize body = .ok tokens) (ends : atWordEnd rest = true) :
    Builder.SameResult (parse body) (parse (Page.framed header body rest)) := by
  obtain ⟨read, mark, start, read', mark', hs, hs', starts, same⟩ :=
    exists_stream_framed line begins ended unmarked readable ends
  have once := Token.nodup_stream body
  have once' := Token.nodup_stream (Page.framed header body rest)
  rw [hs] at once
  rw [hs'] at once'
  have pairing := Token.pairing_of_forall₂ same once once'.of_cons
  have feed : (Builder.ofText body).feed = ⟨read, .ok mark, none, none⟩ := by
    unfold Builder.ofText Token.Feed.ofText
    rw [hs]
  have feed' : (Builder.ofText (Page.framed header body rest)).feed =
      ⟨start :: read', .ok mark', none, none⟩ := by
    unfold Builder.ofText Token.Feed.ofText
    rw [hs']
  have next : (Builder.ofText (Page.framed header body rest)).next? = some start := by
    rw [Builder.next?, feed']
    rfl
  have bare := Builder.bare_ofText (Page.framed header body rest)
  unfold parse
  rw [bare.run_start next starts]
  refine (Builder.bare_ofText body).sameResult pairing (bare.pass_start starts) ?_ ?_
  · show List.Forall₂ _ _ (Builder.ofText (Page.framed header body rest)).feed.ahead.tail
    rw [feed, feed']
    exact List.forall₂_iff_get.mpr ⟨same.length_eq, fun i hi hi' =>
      ⟨i, List.getElem?_eq_getElem hi, List.getElem?_eq_getElem hi'⟩⟩
  · show _ = (Builder.ofText (Page.framed header body rest)).feed.ending.isOk
    rw [feed, feed']
    rfl

/-- A diagram in a page means the same as in a file of its own. Where the start mark
and the end mark are the first ones of a page, in any case, the page is read as the
body between them; and the body is the same graph as the text with the marks, or
is refused with an error of the same class. Neither a header behind the start mark
nor what follows the end mark counts. -/
theorem page_diagram_means_same (first : ¬ Page.Mentions Page.startMark front)
    (line : .scalar '\n' ∉ header) (begins : atWordEnd header = true)
    (ended : body.getLast? = some (.scalar '\n')) (unmarked : ¬ Page.Mentions Page.endMark body)
    (readable : tokenize body = .ok tokens) (ends : atWordEnd rest = true) :
    (∀ (files : FileTree) (path : String) (content : ByteArray),
      Source.isPageSuffix (Files.Path.ofText path).suffix = true →
      files.read (.ofText path) = .ok content →
      decodeText content = some (front ++ Page.framed header body rest) →
      Source.load files path (some 0) = .ok body) ∧
    Builder.SameResult (parse body) (parse (Page.framed header body rest)) := by
  refine ⟨?_, sameResult_framed line begins ?_ unmarked readable ends⟩
  · intro files path content page read text
    exact Page.load_first page read text first line begins unmarked
  · intro c hc
    exact Option.some.inj (hc.symm.trans ended)

/-- A body with a comment, a quoted name and a start line of its own, on a page that
names the marks almost before. A relation right behind the start mark is refused as
at the start of a file. -/
theorem page_diagram_means_same_behind_near_marks :
    (∃ (front header body rest : Text) (files : FileTree) (content : ByteArray) (g : Graph),
      front = ("# See @start uml, @enduml\n" : String) ∧ header = (" \"x\" ' y" : String) ∧
      body = ("class \"'A\" ' c\n/' @end uml '/\n@startuml z\nclass B\nB --|> \"'A\"\n" : String) ∧
      rest = (", and @ENDUML" : String) ∧ files.read (.ofText "notes.MD") = .ok content ∧
      decodeText content = some (front ++ Page.framed header body rest) ∧
      Source.load files "notes.MD" (some 0) = .ok body ∧ parse body = .ok g ∧
      parse (Page.framed header body rest) = .ok g) ∧
    ∃ (body : Text) (e e' : DiagramError), body = ("extends A\n" : String) ∧
      parse body = .error e ∧ parse (Page.framed [] body []) = .error e' ∧ e.label = e'.label := by
  constructor
  · let front : Text := ("# See @start uml, @enduml\n" : String)
    let header : Text := (" \"x\" ' y" : String)
    let body : Text :=
      ("class \"'A\" ' c\n/' @end uml '/\n@startuml z\nclass B\nB --|> \"'A\"\n" : String)
    let rest : Text := (", and @ENDUML" : String)
    let page : String := "# See @start uml, @enduml\n@startuml \"x\" ' y\nclass \"'A\" ' c\n" ++
      "/' @end uml '/\n@startuml z\nclass B\nB --|> \"'A\"\n@enduml, and @ENDUML"
    let files : FileTree := ⟨[(⟨.working 0, ["notes.MD"]⟩, .file page.toUTF8)]⟩
    obtain ⟨tokens, ht⟩ : ∃ tokens, tokenize body = .ok tokens :=
      exists_ok_of_isOk (by decide +kernel)
    have read : files.read (.ofText "notes.MD") = .ok page.toUTF8 := by
      have place : files.locate (.ofText "notes.MD") = .ok ⟨.working 0, ["notes.MD"]⟩ := by
        decide +kernel
      unfold FileTree.read
      rw [place]
      rfl
    have text : decodeText page.toUTF8 = some (front ++ Page.framed header body rest) := by
      have whole : Text.ofString page = front ++ Page.framed header body rest := by decide +kernel
      rw [← whole, decodeText, Json.fromUTF8?_toUTF8]
      exact congrArg some (unifyLineEnds_of_not_mem (by decide +kernel))
    have same := @page_diagram_means_same front header body rest tokens (by decide +kernel)
      (by decide) (by decide) (by decide +kernel) (by decide +kernel) ht (by decide)
    obtain ⟨g, hg⟩ : ∃ g, parse body = .ok g := exists_ok_of_isOk (by decide +kernel)
    rcases same.2 with ⟨g', h, h'⟩ | ⟨e, _, h, _⟩
    · exact ⟨front, header, body, rest, files, _, g', rfl, rfl, rfl, rfl, read, text,
        same.1 files _ _ (by decide +kernel) read text, h, h'⟩
    · rw [hg] at h
      cases h
  · let body : Text := ("extends A\n" : String)
    obtain ⟨tokens, ht⟩ : ∃ tokens, tokenize body = .ok tokens :=
      exists_ok_of_isOk (by decide +kernel)
    have same := @page_diagram_means_same [] [] body [] tokens (by decide +kernel)
      (by decide) (by decide) (by decide +kernel) (by decide +kernel) ht (by decide)
    have refused : (parse body).isOk = false := by decide +kernel
    rcases same.2 with ⟨g, h, _⟩ | ⟨e, e', h, h', label⟩
    · rw [h] at refused
      cases refused
    · exact ⟨body, e, e', rfl, h, h', label⟩

end ClassGraph
