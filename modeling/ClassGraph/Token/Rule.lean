import ClassGraph.Arrow
import ClassGraph.Text.Blank
import ClassGraph.Text.Search
import ClassGraph.Text.Word
import ClassGraph.Token

/-!
The written forms of the tokens. A rule looks at the characters ahead and says how many of them
make up its form; the rules are tried in a fixed order and the first that fits gives the token.
-/

namespace ClassGraph.Token

open Text

/-- The length of the form at the front of a text, if it is there. -/
abbrev Rule := Text → Option Nat

def runLength (p : CodePoint → Bool) (cs : Text) : Nat := (cs.takeWhile p).length

def mark (word : Text) : Rule := fun cs =>
  (stripWord? word cs).map fun _ => word.length

def keyword (word : Text) : Rule := fun cs =>
  match stripWord? word cs with
  | some rest => if atWordEnd rest then some word.length else none
  | none => none

def orElse (first second : Rule) : Rule := fun cs => (first cs).orElse fun _ => second cs

def lineLength (cs : Text) : Nat := runLength (· != '\n') cs

/-- The start mark takes the whole line along. -/
def startRule : Rule := fun cs =>
  (keyword "@startuml" cs).map fun n => n + lineLength (cs.drop n)

/-- The word `abstract`, with `class` behind it on the same line if that follows. -/
def abstractRule : Rule := fun cs =>
  match stripWord? ("abstract" : Text) cs with
  | none => none
  | some rest =>
    let gap := runLength (fun c => c == ' ' || c == '\t') rest
    match if gap = 0 then none else keyword "class" (rest.drop gap) with
    | some n => some ("abstract".length + gap + n)
    | none => if atWordEnd rest then some "abstract".length else none

/-! ## Arrows -/

/-- The characters that the line of an arrow is drawn with. -/
def isShaft (c : CodePoint) : Bool := c == '-' || c == '.'

def shaftLength (cs : Text) : Nat := runLength isShaft cs

/-- The length of a direction word that a line follows; zero if there is none. -/
def directionLength (cs : Text) : Nat :=
  match Arrow.stripDirection? cs with
  | some rest => if shaftLength rest = 0 then 0 else cs.length - rest.length
  | none => 0

/-- The length of a direction word and the line behind it; zero if there is none. -/
def turnLength (cs : Text) : Nat :=
  match directionLength cs with
  | 0 => 0
  | n => n + shaftLength (cs.drop n)

/-- The heads on the left: a bar belongs to its bracket, and a letter or star is a head only in
front of a line. -/
def leftHeadLength : Text → Nat
  | .scalar '<' :: .scalar '|' :: _ => 2
  | .scalar '<' :: _ => 1
  | .scalar 'o' :: c :: _ => if isShaft c then 1 else 0
  | .scalar '*' :: c :: _ => if isShaft c then 1 else 0
  | _ => 0

/-- Head, direction word, line and turn. -/
def leftArrowRule : Rule := fun cs =>
  match leftHeadLength cs with
  | 0 => none
  | head =>
    let direction := directionLength (cs.drop head)
    let shaft := shaftLength (cs.drop (head + direction))
    if shaft = 0 then none
    else some (head + direction + shaft + turnLength (cs.drop (head + direction + shaft)))

/-- The heads on the right. The letter is a head only where the word ends with it. -/
def rightHeadLength : Text → Nat
  | .scalar '|' :: .scalar '>' :: _ => 2
  | .scalar '>' :: _ => 1
  | .scalar 'o' :: rest => if atWordEnd rest then 1 else 0
  | .scalar '*' :: _ => 1
  | _ => 0

/-- Line, turn and head; the head may be missing. -/
def rightArrowRule : Rule := fun cs =>
  match shaftLength cs with
  | 0 => none
  | shaft =>
    let turn := turnLength (cs.drop shaft)
    some (shaft + turn + rightHeadLength (cs.drop (shaft + turn)))

/-! ## Names -/

def quotedRule : Rule
  | .scalar '"' :: rest =>
    let inside := runLength (fun c => c != '"' && c != '\n') rest
    match rest.drop inside with
    | .scalar '"' :: _ => some (inside + 2)
    | _ => none
  | _ => none

/-- Whether an arrow follows that begins with a direction word and ends here: in a head, before a
blank, or with the text. -/
def beginsTurnedArrow (cs : Text) : Bool :=
  match directionLength cs with
  | 0 => false
  | n =>
    let after := cs.drop (n + shaftLength (cs.drop n))
    match after with
    | [] => true
    | c :: _ => rightHeadLength after != 0 || isBlank c

/-- The further segments of a name, each behind a point or a slash. A segment that begins an arrow
belongs to the arrow. -/
def segmentsLength (cs : Text) : Nat :=
  match cs with
  | [] => 0
  | c :: rest =>
    if (c == '.' || c == '/') && !beginsTurnedArrow rest then
      match runLength isWord rest with
      | 0 => 0
      | n + 1 => n + 2 + segmentsLength (rest.drop (n + 1))
    else 0
termination_by cs.length
decreasing_by simp only [List.length_drop, List.length_cons]; omega

def barewordRule : Rule
  | c :: rest =>
    if isWordStart c then
      let word := runLength isWord rest
      some (1 + word + segmentsLength (rest.drop word))
    else none
  | [] => none

/-! ## All rules -/

/-- The forms of the tokens, in the order in which they are tried. -/
def rules : List (TokenKind × Rule) :=
  [(.start, startRule),
   (.finish, keyword "@enduml"),
   (.declare .abstract, abstractRule),
   (.declare .concrete, keyword "class"),
   (.declare .interface, keyword "interface"),
   (.package, orElse (keyword "package") (keyword "namespace")),
   (.relate .inherits, keyword "extends"),
   (.relate .realizes, keyword "implements"),
   (.arrow .left, leftArrowRule),
   (.arrow .right, rightArrowRule),
   (.openBrace, mark "\x7b"),
   (.closeBrace, mark "\x7d"),
   (.name, orElse quotedRule barewordRule)]

/-- The kind and the length of the token at the front of a text. -/
def recognize (cs : Text) : Option (TokenKind × Nat) :=
  rules.findSome? fun (kind, rule) => (rule cs).map fun n => (kind, n)

/-! ## Forms are not empty and fit into the text -/

/-- A form has at least one character, and no more than there are. -/
def Fits (rule : Rule) : Prop := ∀ cs n, rule cs = some n → 0 < n ∧ n ≤ cs.length

theorem runLength_le (p : CodePoint → Bool) (cs : Text) : runLength p cs ≤ cs.length :=
  (List.takeWhile_sublist p).length_le

theorem runLength_drop_le (p : CodePoint → Bool) (cs : Text) (n : Nat) :
    runLength p (cs.drop n) ≤ cs.length - n := by
  simpa using runLength_le p (cs.drop n)

theorem fits_mark {word : Text} (h : word ≠ []) : Fits (mark word) := by
  intro cs n hn
  simp only [mark, Option.map_eq_some_iff] at hn
  obtain ⟨rest, hr, rfl⟩ := hn
  rw [stripWord?_eq_some_iff] at hr
  subst hr
  have := List.length_pos_iff.mpr h
  simp only [List.length_append]
  omega

theorem fits_keyword {word : Text} (h : word ≠ []) : Fits (keyword word) := by
  intro cs n hn
  unfold keyword at hn
  split at hn
  · rename_i rest hr
    split at hn
    · rw [stripWord?_eq_some_iff] at hr
      have := List.length_pos_iff.mpr h
      simp only [Option.some.injEq] at hn
      subst hr hn
      simp only [List.length_append]
      omega
    · simp at hn
  · simp at hn

theorem fits_orElse {first second : Rule} (h₁ : Fits first) (h₂ : Fits second) :
    Fits (orElse first second) := by
  intro cs n hn
  simp only [orElse] at hn
  cases h : first cs with
  | some m =>
    simp only [h, Option.orElse_some, Option.some.injEq] at hn
    exact hn ▸ h₁ cs m h
  | none =>
    simp only [h, Option.orElse_none] at hn
    exact h₂ cs n hn

theorem fits_startRule : Fits startRule := by
  intro cs n hn
  simp only [startRule, Option.map_eq_some_iff] at hn
  obtain ⟨m, hm, rfl⟩ := hn
  have := fits_keyword (by decide) cs m hm
  have := runLength_drop_le (· != '\n') cs m
  simp only [lineLength]
  omega

theorem fits_abstractRule : Fits abstractRule := by
  intro cs n hn
  unfold abstractRule at hn
  split at hn
  · simp at hn
  · rename_i rest hr
    rw [stripWord?_eq_some_iff] at hr
    have hl : cs.length = 8 + rest.length := by
      rw [hr, List.length_append]
      rfl
    simp only at hn
    split at hn
    · rename_i m hm
      split at hm
      · simp at hm
      · have := fits_keyword (by decide) _ m hm
        simp only [List.length_drop] at this
        simp only [Option.some.injEq] at hn
        have h8 : "abstract".length = 8 := by decide
        omega
    · split at hn
      · simp only [Option.some.injEq] at hn
        have h8 : "abstract".length = 8 := by decide
        omega
      · simp at hn

theorem directionLength_le (cs : Text) : directionLength cs ≤ cs.length := by
  unfold directionLength
  split
  · split <;> omega
  · omega

theorem turnLength_le (cs : Text) : turnLength cs ≤ cs.length := by
  unfold turnLength
  split
  · omega
  · rename_i n hn
    have := runLength_drop_le isShaft cs (directionLength cs)
    have := directionLength_le cs
    simp only [shaftLength]
    omega

theorem leftHeadLength_le (cs : Text) : leftHeadLength cs ≤ cs.length := by
  fun_cases leftHeadLength cs <;> simp

theorem rightHeadLength_le (cs : Text) : rightHeadLength cs ≤ cs.length := by
  fun_cases rightHeadLength cs <;> simp

theorem shaftLength_drop_le (cs : Text) (n : Nat) :
    shaftLength (cs.drop n) ≤ cs.length - n := runLength_drop_le isShaft cs n

theorem fits_leftArrowRule : Fits leftArrowRule := by
  intro cs n hn
  unfold leftArrowRule at hn
  split at hn
  · simp at hn
  · rename_i head hh
    simp only at hn
    split at hn
    · simp at hn
    · simp only [Option.some.injEq] at hn
      have h₁ := leftHeadLength_le cs
      have h₂ := directionLength_le (cs.drop (leftHeadLength cs))
      generalize directionLength (cs.drop (leftHeadLength cs)) = direction at *
      have h₃ := shaftLength_drop_le cs (leftHeadLength cs + direction)
      generalize shaftLength (cs.drop (leftHeadLength cs + direction)) = shaft at *
      have h₄ := turnLength_le (cs.drop (leftHeadLength cs + direction + shaft))
      simp only [List.length_drop] at h₂ h₃ h₄
      omega

theorem fits_rightArrowRule : Fits rightArrowRule := by
  intro cs n hn
  unfold rightArrowRule at hn
  split at hn
  · simp at hn
  · rename_i shaft hs
    simp only [Option.some.injEq] at hn
    have h₁ := runLength_le isShaft cs
    have h₀ : shaftLength cs = runLength isShaft cs := rfl
    have hs : shaftLength cs ≠ 0 := hs
    have h₂ := turnLength_le (cs.drop (shaftLength cs))
    have h₃ := rightHeadLength_le
      (cs.drop (shaftLength cs + turnLength (cs.drop (shaftLength cs))))
    simp only [List.length_drop] at h₂ h₃
    omega

theorem fits_quotedRule : Fits quotedRule := by
  intro cs n hn
  unfold quotedRule at hn
  split at hn
  · rename_i rest
    simp only at hn
    split at hn
    · rename_i tail ht
      have := congrArg List.length ht
      simp only [List.length_drop, List.length_cons] at this
      simp only [Option.some.injEq] at hn
      simp only [List.length_cons]
      omega
    · simp at hn
  · simp at hn

theorem segmentsLength_le (cs : Text) : segmentsLength cs ≤ cs.length := by
  fun_induction segmentsLength cs with
  | case1 => simp
  | case2 => omega
  | case3 c rest h n hn ih =>
    have := runLength_le isWord rest
    simp only [List.length_drop, List.length_cons] at *
    omega
  | case4 => omega

theorem fits_barewordRule : Fits barewordRule := by
  intro cs n hn
  unfold barewordRule at hn
  split at hn
  · rename_i c rest
    split at hn
    · simp only [Option.some.injEq] at hn
      have := runLength_le isWord rest
      have := segmentsLength_le (rest.drop (runLength isWord rest))
      simp only [List.length_drop, List.length_cons] at *
      omega
    · simp at hn
  · simp at hn

theorem fits_of_mem_rules {kind : TokenKind} {rule : Rule} (h : (kind, rule) ∈ rules) :
    Fits rule := by
  simp only [rules, List.mem_cons, Prod.mk.injEq, List.not_mem_nil, or_false] at h
  rcases h with ⟨_, rfl⟩ | ⟨_, rfl⟩ | ⟨_, rfl⟩ | ⟨_, rfl⟩ | ⟨_, rfl⟩ | ⟨_, rfl⟩ | ⟨_, rfl⟩ |
    ⟨_, rfl⟩ | ⟨_, rfl⟩ | ⟨_, rfl⟩ | ⟨_, rfl⟩ | ⟨_, rfl⟩ | ⟨_, rfl⟩
  · exact fits_startRule
  · exact fits_keyword (by decide)
  · exact fits_abstractRule
  · exact fits_keyword (by decide)
  · exact fits_keyword (by decide)
  · exact fits_orElse (fits_keyword (by decide)) (fits_keyword (by decide))
  · exact fits_keyword (by decide)
  · exact fits_keyword (by decide)
  · exact fits_leftArrowRule
  · exact fits_rightArrowRule
  · exact fits_mark (by decide)
  · exact fits_mark (by decide)
  · exact fits_orElse fits_quotedRule fits_barewordRule

/-- A recognized token is not empty and lies within the text. -/
theorem recognize_fits {cs : Text} {kind : TokenKind} {n : Nat}
    (h : recognize cs = some (kind, n)) : 0 < n ∧ n ≤ cs.length := by
  obtain ⟨⟨k, rule⟩, hm, hr⟩ := List.exists_of_findSome?_eq_some h
  simp only [Option.map_eq_some_iff, Prod.mk.injEq] at hr
  obtain ⟨m, hm', _, rfl⟩ := hr
  exact fits_of_mem_rules hm cs m hm'

end ClassGraph.Token
