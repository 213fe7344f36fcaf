import ClassGraph.Proofs.Bareword
import ClassGraph.Proofs.Mirror

/-! # Arrows as they are drawn

An arrow is drawn with a head, a line and direction words. One that is drawn like
this is found in one piece, and every arrow that is found in a text is drawn like
this. What it states shows in its head and in the one character of the line next
to the head. The direction words say nothing: without them the arrow is found as
well, and states the same.
-/

namespace ClassGraph

open Text

namespace Arrow

open Token

/-- An arrow with its head on a side. On the left a direction word may stand
between a triangle or an angle and the line. On the right the head may be missing. -/
inductive Drawing : Side → Type
  | left (head : Head) (lead : Text) (shaft : Shaft)
      (fits : lead = [] ∨ lead ∈ directions ∧ (head = .triangle ∨ head = .angle)) : Drawing .left
  | right (shaft : Shaft) (head : Option Head) : Drawing .right

namespace Shaft

/-- The line without its direction word. -/
def straight (shaft : Shaft) : Shaft :=
  ⟨⟨shaft.strokes, shaft.strokes_ne_nil, shaft.isShaft_of_mem⟩, none⟩

@[simp]
theorem text_straight (shaft : Shaft) : shaft.straight.text = shaft.strokes := List.append_nil _

@[simp]
theorem strokes_straight (shaft : Shaft) : shaft.straight.strokes = shaft.strokes :=
  List.append_nil _

end Shaft

namespace Drawing

variable {side : Side} {arrow other : Drawing side}

def text : {side : Side} → Drawing side → Text
  | _, left head lead shaft _ => head.left ++ lead ++ shaft.text
  | _, right shaft head => shaft.text ++ head.elim [] Head.right

def head : {side : Side} → Drawing side → Option Head
  | _, left head _ _ _ => some head
  | _, right _ head => head

/-- The line of the arrow, without direction words. -/
def strokes : {side : Side} → Drawing side → Text
  | _, left _ _ shaft _ => shaft.strokes
  | _, right shaft _ => shaft.strokes

/-- The character of the line that stands next to the head, or would stand there. -/
def next : {side : Side} → Drawing side → CodePoint
  | _, left _ _ shaft _ => shaft.strokes.head shaft.strokes_ne_nil
  | _, right shaft _ => shaft.strokes.getLast shaft.strokes_ne_nil

/-- The arrow without its direction words. -/
def straight : {side : Side} → Drawing side → Drawing side
  | _, left head _ shaft _ => left head [] shaft.straight (.inl rfl)
  | _, right shaft head => right shaft.straight head

/-- What an arrow states by its head and the character next to it. -/
def family (arrow : Drawing side) : Family := arrow.head.elim .link (Head.family arrow.next)

/-! ## Direction words say nothing -/

theorem normalize_text (arrow : Drawing side) : normalize arrow.text = arrow.straight.text := by
  cases arrow with
  | left head lead shaft fits =>
    have line := normalize_shaft shaft []
    rw [List.append_nil, normalize_nil, List.append_nil] at line
    rw [text, straight, text, List.append_assoc, normalize_append head.plain_left,
      List.append_nil, Shaft.text_straight]
    rcases fits with rfl | ⟨word, _⟩
    · rw [List.nil_append, line]
    · rw [normalize_direction word, line]
  | right shaft head =>
    rw [text, straight, text, normalize_shaft, Shaft.text_straight]
    cases head with
    | none => exact congrArg _ normalize_nil
    | some head => exact congrArg _ (normalize_of_plain head.plain_right)

theorem text_straight_straight (arrow : Drawing side) :
    arrow.straight.straight.text = arrow.straight.text := by
  cases arrow <;> simp [straight, text]

theorem normalize_straight (arrow : Drawing side) :
    normalize arrow.straight.text = arrow.straight.text := by
  rw [normalize_text, text_straight_straight]

/-! ## What an arrow states -/

theorem isShaft_next (arrow : Drawing side) : isShaft arrow.next = true := by
  cases arrow with
  | left head lead shaft fits => exact shaft.isShaft_of_mem _ (List.head_mem _)
  | right shaft head => exact shaft.isShaft_of_mem _ (List.getLast_mem _)

/-- A line without a head fits no row of a head. -/
theorem family_of_line {cs front : Text} {next : CodePoint} (h : normalize cs = front ++ [next])
    (hn : isShaft next = true) : Arrow.family .right cs = .link := by
  have backward : (normalize cs).reverse = next :: front.reverse := by
    rw [h, List.reverse_append]
    rfl
  unfold Arrow.family List.isSuffixOf
  simp only [backward]
  rcases isShaft_iff.mp hn with rfl | rfl <;> rfl

/-- The tables of families decide by the head and the character next to it. -/
theorem family_text (arrow : Drawing side) : Arrow.family side arrow.text = arrow.family := by
  have drawn := arrow.isShaft_next
  have plain := arrow.normalize_text
  cases arrow with
  | left head lead shaft fits =>
    have line : shaft.strokes = next (left head lead shaft fits) :: shaft.strokes.tail :=
      (List.cons_head_tail shaft.strokes_ne_nil).symm
    change normalize _ = head.left ++ [] ++ shaft.straight.text at plain
    rw [List.append_nil, Shaft.text_straight, line] at plain
    exact Head.family_of_prefix plain drawn
  | right shaft head =>
    have line : shaft.strokes = shaft.strokes.dropLast ++ [next (right shaft head)] :=
      (List.dropLast_append_getLast shaft.strokes_ne_nil).symm
    change normalize _ = shaft.straight.text ++ head.elim [] Head.right at plain
    rw [Shaft.text_straight, line] at plain
    cases head with
    | some head => exact Head.family_of_suffix plain drawn
    | none => exact family_of_line (plain.trans (List.append_nil _)) drawn

theorem family_ne_unknown (arrow : Drawing side) : arrow.family ≠ .unknown := by
  unfold family
  cases arrow.head with
  | none => nofun
  | some head =>
    cases head with
    | triangle => simp only [Option.elim_some, Head.family]; split <;> nofun
    | angle => simp only [Option.elim_some, Head.family]; split <;> nofun
    | circle => nofun
    | star => nofun

theorem next_of_strokes (h : other.strokes = arrow.strokes) : other.next = arrow.next := by
  cases arrow with
  | left head lead shaft fits =>
    cases other with
    | left head' lead' shaft' fits' => simp only [next, show shaft'.strokes = shaft.strokes from h]
  | right shaft head =>
    cases other with
    | right shaft' head' => simp only [next, show shaft'.strokes = shaft.strokes from h]

/-- What an arrow is taken for, by its head. -/
theorem relation_of_head {t : Token} {head : Option Head} (h : arrow.text = t.text)
    (hh : arrow.head = head) :
    let family := head.elim .link (Head.family arrow.next)
    t.relation side = family.relation?.elim (.error (.unsupportedArrow family t)) .ok := by
  unfold Token.relation
  rw [← h, arrow.family_text, family, hh]
  dsimp only
  cases Family.relation? _ <;> rfl

/-! ## What is drawn is found -/

/-- What may follow an arrow that ends there. -/
def Ends : {side : Side} → Drawing side → Text → Prop
  | _, left _ _ _ _, rest => Stops rest
  | _, right _ none, rest => Stops rest ∧ rightHeadLength rest = 0
  | _, right _ (some head), rest => head = .circle → atWordEnd rest = true

theorem ends_space (arrow : Drawing side) (rest : Text) : arrow.Ends (.scalar ' ' :: rest) := by
  have stops : Stops (.scalar ' ' :: rest) := ⟨by rintro c ⟨⟩; rfl, rfl⟩
  cases arrow with
  | left head lead shaft fits => exact stops
  | right shaft head =>
    cases head with
    | none => exact ⟨stops, rfl⟩
    | some head => exact fun _ => rfl

theorem recognize_append (arrow : Drawing side) {rest : Text} (h : arrow.Ends rest) :
    recognize (arrow.text ++ rest) = some (.arrow side, arrow.text.length) := by
  cases arrow with
  | left head lead shaft fits => exact recognize_leftward head shaft fits h
  | right shaft head =>
    cases head with
    | some head => exact recognize_rightward shaft head h
    | none =>
      obtain ⟨line, turned⟩ := shaft.found h.1
      rw [text, Option.elim_none, List.append_nil]
      refine recognize_of_rightArrowRule (rightArrowRule_eq_some_iff.mpr ⟨?_, ?_⟩)
      · rw [line]
        exact mt List.length_eq_zero_iff.mp shaft.stroke.nonempty
      · rw [line, turned, List.drop_left, h.2, Nat.add_zero]

/-! ## What is found is drawn -/

theorem exists_leftHead {cs : Text} (h : leftHeadLength cs ≠ 0) : ∃ head : Head, ∃ rest,
    cs = head.left ++ rest ∧ leftHeadLength cs = head.left.length ∧
      (head = .triangle ∨ head = .angle ∨ ∃ s ∈ rest.head?, isShaft s = true) := by
  match cs with
  | [] => exact absurd rfl h
  | [c] =>
    by_cases angle : c = '<'
    · subst angle
      exact ⟨.angle, [], rfl, rfl, .inr (.inl rfl)⟩
    · simp [leftHeadLength, angle] at h
  | a :: b :: rest =>
    rw [leftHeadLength_cons_cons] at h ⊢
    split_ifs at h ⊢ with angle bar bead
    · subst angle bar
      exact ⟨.triangle, rest, rfl, rfl, .inl rfl⟩
    · subst angle
      exact ⟨.angle, b :: rest, rfl, rfl, .inr (.inl rfl)⟩
    · obtain ⟨rfl | rfl, shaft⟩ := bead
      · exact ⟨.circle, b :: rest, rfl, rfl, .inr (.inr ⟨b, rfl, shaft⟩)⟩
      · exact ⟨.star, b :: rest, rfl, rfl, .inr (.inr ⟨b, rfl, shaft⟩)⟩
    · exact absurd rfl h

theorem exists_lead (cs : Text) : ∃ lead rest, cs = lead ++ rest ∧
    directionLength cs = lead.length ∧
      (lead = [] ∨ lead ∈ directions ∧ ¬ ∃ s ∈ cs.head?, isShaft s = true) := by
  by_cases turned : directionLength cs = 0
  · exact ⟨[], cs, rfl, turned, .inl rfl⟩
  · obtain ⟨word, hw, s, rest, rfl, hs⟩ := exists_of_directionLength turned
    refine ⟨word, [s] ++ rest, List.append_assoc _ _ _, directionLength_append hw hs rest,
      .inr ⟨hw, ?_⟩⟩
    rintro ⟨c, hc, shaft⟩
    obtain ⟨tail, front⟩ := List.head?_eq_some_iff.mp hc
    rw [front] at turned
    exact turned (directionLength_of_isShaft shaft)

theorem exists_of_recognize {cs behind : Text}
    (h : recognize (cs ++ behind) = some (.arrow side, cs.length)) :
    ∃ arrow : Drawing side, arrow.text = cs := by
  cases side with
  | left =>
    obtain ⟨headed, line, whole⟩ := leftArrowRule_eq_some_iff.mp (arrowRule_of_recognize h)
    obtain ⟨head, rest, he, hl, follows⟩ := exists_leftHead headed
    rw [hl, he, List.drop_left] at line whole
    obtain ⟨lead, rest, rfl, hd, fits⟩ := exists_lead rest
    rw [hd, ← List.drop_drop, List.drop_left, List.drop_left] at line
    simp only [hd, ← List.drop_drop, List.drop_left] at whole
    obtain ⟨shaft, rest, rfl, hs⟩ := exists_shaft line
    rw [Nat.add_assoc, hs, ← List.length_append, ← List.length_append] at whole
    rw [← List.append_assoc, ← List.append_assoc] at he
    have drawn : lead = [] ∨ lead ∈ directions ∧ (head = .triangle ∨ head = .angle) := by
      refine fits.imp_right fun ⟨word, straight⟩ => ⟨word, ?_⟩
      rcases follows with triangle | angle | stroke
      · exact .inl triangle
      · exact .inr angle
      · exact absurd stroke straight
    exact ⟨left head lead shaft drawn, (List.append_inj he whole.symm).1.symm⟩
  | right =>
    obtain ⟨shaft, rfl | ⟨head, rfl⟩⟩ := exists_shaft_of_recognize h
    · exact ⟨right shaft none, List.append_nil _⟩
    · exact ⟨right shaft (some head), rfl⟩

end Drawing

end Arrow

/-- Between two names an arrow is read as one token exactly if it is drawn with a
head, a line and direction words. -/
theorem arrow_between_names_iff (side : Side) (a : Text) :
    Token.forms (("A " : Text) ++ a ++ (" B" : Text)) =
        .ok [(.name, "A"), (.arrow side, a), (.name, "B"), (.finish, [])] ↔
      ∃ arrow : Arrow.Drawing side, arrow.text = a := by
  rw [Token.forms_eq_ok_iff]
  constructor
  · intro h
    obtain ⟨_, _, _, _, _, h⟩ := h.exists_of_cons nofun
    obtain ⟨_, _, _, _, found, _⟩ := h.exists_of_cons nofun
    exact Arrow.Drawing.exists_of_recognize found
  · rintro ⟨arrow, rfl⟩
    have first : Token.recognize (("A" : Text) ++ (.scalar ' ' :: (arrow.text ++ (" B" : Text)))) =
        some (.name, 1) := Token.recognize_letter rfl (.inr ⟨_, rfl⟩)
    have last : Token.recognize (("B" : Text) ++ []) = some (.name, 1) :=
      Token.recognize_letter rfl (.inl rfl)
    have found := arrow.recognize_append (arrow.ends_space ("B" : Text))
    have space : Token.Gap (" " : Text) (arrow.text ++ (" B" : Text)) := .blank isBlank_space .nil
    have words := Token.Spells.token .nil first nofun (.token space found nofun
      (.token (.blank isBlank_space .nil) last nofun (.stop .nil)))
    rw [List.append_assoc]
    exact words

/-- Every arrow of a text, also in front of an error, is drawn with a head, a line and
direction words, and is classified by its side, its head and the character next to it
alone. With all its direction words dropped it is read as the same kind of token. -/
theorem arrow_states_by_head {source : Text} {t : Token} {side : Side}
    (ht : t ∈ (Token.stream source).1) (hk : t.kind = .arrow side) :
    (∃ arrow : Arrow.Drawing side, arrow.text = t.text) ∧
    (∀ arrow : Arrow.Drawing side, arrow.text = t.text →
      (arrow.next = '-' ∨ arrow.next = '.') ∧
      (arrow.head = some .triangle →
        t.relation side = .ok (if arrow.next = '.' then .realizes else .inherits)) ∧
      (arrow.head = some .angle → t.relation side =
        .error (.unsupportedArrow (if arrow.next = '.' then .dependency else .association) t)) ∧
      (arrow.head = some .circle → t.relation side = .error (.unsupportedArrow .aggregation t)) ∧
      (arrow.head = some .star → t.relation side = .error (.unsupportedArrow .composition t)) ∧
      (arrow.head = none → t.relation side = .error (.unsupportedArrow .link t)) ∧
      ∀ other : Arrow.Drawing side, other.head = arrow.head →
        (other.next = arrow.next ∨ other.strokes = arrow.strokes) →
          Arrow.family side other.text = Arrow.family side t.text) ∧
    Arrow.family side t.text ≠ .unknown ∧
    Token.forms ((" " : Text) ++ Arrow.normalize t.text ++ (" " : Text)) =
      .ok [(.arrow side, Arrow.normalize t.text), (.finish, [])] ∧
    Arrow.normalize (Arrow.normalize t.text) = Arrow.normalize t.text := by
  obtain ⟨behind, found⟩ := Token.exists_recognize_of_mem_readAll ht
  rw [hk] at found
  obtain ⟨drawing, drawn⟩ := Arrow.Drawing.exists_of_recognize found
  refine ⟨⟨drawing, drawn⟩, fun arrow h => ?_, ?_, ?_, ?_⟩
  · have known := Token.isShaft_iff.mp arrow.isShaft_next
    refine ⟨known, fun hh => ?_, fun hh => ?_, Arrow.Drawing.relation_of_head h,
      Arrow.Drawing.relation_of_head h, Arrow.Drawing.relation_of_head h, ?_⟩
    · rw [Arrow.Drawing.relation_of_head h hh]
      rcases known with dash | dot
      · rw [dash]; rfl
      · rw [dot]; rfl
    · rw [Arrow.Drawing.relation_of_head h hh]
      rcases known with dash | dot
      · rw [dash]; rfl
      · rw [dot]; rfl
    · intro other head line
      have next : other.next = arrow.next := line.elim id Arrow.Drawing.next_of_strokes
      rw [← h, other.family_text, arrow.family_text, Arrow.Drawing.family, head, next]
      rfl
  · rw [← drawn, drawing.family_text]
    exact drawing.family_ne_unknown
  · rw [← drawn, drawing.normalize_text, Token.forms_eq_ok_iff]
    have found := drawing.straight.recognize_append (drawing.straight.ends_space [])
    have words := Token.Spells.cons found nofun (.stop (.blank isBlank_space .nil))
    rw [List.append_assoc]
    exact words.gap (.blank isBlank_space .nil)
  · rw [← drawn, drawing.normalize_text, drawing.normalize_straight]

/-- A direction word between head and line, or within a line, is no part of what an
arrow states. -/
theorem arrow_states_by_head_behind_directions : ∃ t u : Token,
    t.text = "<|up.-" ∧ t.relation .left = .ok .realizes ∧
    Arrow.family .left "<|.down-" = Arrow.family .left t.text ∧
    Token.forms " <|.- " = .ok [(.arrow .left, "<|.-"), (.finish, [])] ∧
    u.text = "-down-o" ∧ u.relation .right = .error (.unsupportedArrow .aggregation u) ∧
    Token.forms " --o " = .ok [(.arrow .right, "--o"), (.finish, [])] := by
  let source : Text := ("A <|up.- B -down-o C" : String)
  let t : Token := ⟨.arrow .left, "<|up.-", ⟨1, 3⟩⟩
  let u : Token := ⟨.arrow .right, "-down-o", ⟨1, 12⟩⟩
  have members : t ∈ (Token.stream source).1 ∧ u ∈ (Token.stream source).1 := by decide +kernel
  let dash : Arrow.Stroke := ⟨("-" : Text), List.cons_ne_nil _ _, List.forall_mem_singleton.mpr rfl⟩
  let dot : Arrow.Stroke := ⟨("." : Text), List.cons_ne_nil _ _, List.forall_mem_singleton.mpr rfl⟩
  let both : Arrow.Stroke := ⟨(".-" : Text), List.cons_ne_nil _ _, by decide⟩
  have down : ("down" : Text) ∈ Arrow.directions := List.mem_cons_of_mem _ List.mem_cons_self
  let turned : Arrow.Shaft := ⟨dash, some ⟨"down", down, dash⟩⟩
  let lead : Arrow.Drawing .left :=
    .left .triangle "up" ⟨both, none⟩ (.inr ⟨List.mem_cons_self, .inl rfl⟩)
  let within : Arrow.Drawing .left :=
    .left .triangle [] ⟨dot, some ⟨"down", down, dash⟩⟩ (.inl rfl)
  obtain ⟨_, table, _, again, _⟩ := arrow_states_by_head members.1 rfl
  obtain ⟨_, table', _, again', _⟩ := arrow_states_by_head members.2 rfl
  obtain ⟨_, triangle, _, _, _, _, others⟩ := table lead rfl
  obtain ⟨_, _, _, circle, _⟩ := table' (.right turned (some .circle)) rfl
  have plain : Arrow.normalize t.text = ("<|.-" : Text) := lead.normalize_text
  have plain' : Arrow.normalize u.text = ("--o" : Text) :=
    (Arrow.Drawing.right turned (some .circle)).normalize_text
  rw [plain] at again
  rw [plain'] at again'
  exact ⟨t, u, rfl, triangle rfl, others within rfl (.inr rfl), again, rfl, circle rfl, again'⟩

end ClassGraph
