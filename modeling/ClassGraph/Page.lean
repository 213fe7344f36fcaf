import ClassGraph.Place
import ClassGraph.Text.Blank
import ClassGraph.Text.Search
import ClassGraph.Text.Word

/-!
Diagrams in a page of prose. A diagram stands between a start mark and an end mark, or in a fence of
three backticks that names the language. The two styles are looked for separately, each from left to
right.
-/

namespace ClassGraph.Page

open Text

/-- A piece of a page: how many characters stand before it, and its text. -/
structure Block where
  offset : Nat
  text : Text
deriving DecidableEq, Repr

/-- Whether a code point is a given small letter in either case. The long s counts as an s. -/
def isLetterOf (small c : CodePoint) : Bool :=
  match small, c with
  | .scalar small, .scalar c => c.toLower == small || (small == 's' && c.toNat == 0x17f)
  | _, _ => false

def stripAnyCase? : (word text : Text) → Option (Text)
  | [], text => some text
  | w :: word, c :: text => if isLetterOf w c then stripAnyCase? word text else none
  | _ :: _, [] => none

theorem length_stripAnyCase {word text rest : Text} (h : stripAnyCase? word text = some rest) :
    text.length = word.length + rest.length := by
  induction word generalizing text with
  | nil =>
    simp only [stripAnyCase?, Option.some.injEq] at h
    simp [h]
  | cons w word ih =>
    cases text with
    | nil => simp [stripAnyCase?] at h
    | cons c text =>
      simp only [stripAnyCase?] at h
      split at h
      · have := ih h
        simp only [List.length_cons]
        omega
      · simp at h

/-- A body that is cut out of a text: the characters before it, itself, and what is left. -/
structure Cut where
  before : Nat
  body : Text
  rest : Text
deriving DecidableEq, Repr

/-! ## Start and end marks -/

def startMark : Text := "@startuml"

def endMark : Text := "@enduml"

/-- Whether a start mark is here; it may not run on into a word. -/
def atStart (cs : Text) : Bool :=
  match stripAnyCase? startMark cs with
  | some rest => atWordEnd rest
  | none => false

/-- Whether an end mark is here; anything may follow it. -/
def atEnd (cs : Text) : Bool := (stripAnyCase? endMark cs).isSome

/-- The first diagram between marks: the body begins on the line behind the start mark. -/
def cutMarked (cs : Text) : Option Cut :=
  match breakWhere atStart cs with
  | none => none
  | some (before, opener) =>
    match splitAtWord ("\n" : Text) opener with
    | none => none
    | some (line, inside) =>
      match breakWhere atEnd inside with
      | none => none
      | some (body, closer) =>
        some ⟨before.length + line.length + 1, body, closer.drop endMark.length⟩

/-! ## Fences -/

def fence : Text := "\x60\x60\x60"

/-- What follows the opening of a fence: the blanks behind the language, up to the last line feed
among them, are part of the opening. -/
def stripFence? (cs : Text) : Option (Text) :=
  match stripWord? fence cs with
  | none => none
  | some named =>
    match (stripAnyCase? "plantuml" named).orElse
        fun _ => stripAnyCase? "puml" named with
    | none => none
    | some rest =>
      let blanks := rest.takeWhile isBlank
      if blanks.contains (.scalar '\n') then
        some ((blanks.reverse.takeWhile (· != .scalar '\n')).reverse ++ rest.drop blanks.length)
      else none

def atFence (cs : Text) : Bool := (stripFence? cs).isSome

def cutFenced (cs : Text) : Option Cut :=
  match breakWhere atFence cs with
  | none => none
  | some (before, opener) =>
    match stripFence? opener with
    | none => none
    | some inside =>
      match breakWhere (startsWith fence) inside with
      | none => none
      | some (body, closer) =>
        some ⟨before.length + (opener.length - inside.length), body, closer.drop fence.length⟩

/-! ## All blocks of a style -/

def Shortens (cut : Text → Option Cut) : Prop :=
  ∀ cs c, cut cs = some c → c.rest.length < cs.length

/-- The bodies of a style from left to right. `skipped` characters stand before the text. -/
def collect (cut : Text → Option Cut) (shortens : Shortens cut) (skipped : Nat)
    (cs : Text) : List Block :=
  match h : cut cs with
  | none => []
  | some c =>
    have := shortens cs c h
    ⟨skipped + c.before, c.body⟩ ::
      collect cut shortens (skipped + (cs.length - c.rest.length)) c.rest
termination_by cs.length

theorem length_splitAtWord {word text before rest : Text}
    (h : splitAtWord word text = some (before, rest)) : rest.length ≤ text.length := by
  simp only [splitAtWord, Option.map_eq_some_iff, Prod.exists, Prod.mk.injEq] at h
  obtain ⟨b, a, hb, _, rfl⟩ := h
  rw [breakWhere_append hb]
  simp only [List.length_append, List.length_drop]
  omega

theorem holds_of_breakWhere {found : Text → Bool} {text before after : Text}
    (h : breakWhere found text = some (before, after)) : found after = true := by
  induction text generalizing before with
  | nil =>
    simp only [breakWhere] at h
    split at h
    · simp_all
    · simp at h
  | cons c rest ih =>
    simp only [breakWhere] at h
    split at h
    · simp_all
    · simp only [Option.map_eq_some_iff, Prod.exists, Prod.mk.injEq] at h
      obtain ⟨b, a, hb, _, rfl⟩ := h
      exact ih hb

theorem shortens_cutMarked : Shortens cutMarked := by
  intro cs c h
  unfold cutMarked at h
  split at h
  · simp at h
  · rename_i before opener ho
    split at h
    · simp at h
    · rename_i line inside hl
      split at h
      · simp at h
      · rename_i body closer hc
        simp only [Option.some.injEq] at h
        subst h
        have h₁ := congrArg List.length (breakWhere_append ho)
        have h₂ := length_splitAtWord hl
        have h₃ := congrArg List.length (breakWhere_append hc)
        have h₄ := holds_of_breakWhere hc
        simp only [atEnd, Option.isSome_iff_exists] at h₄
        obtain ⟨rest, hr⟩ := h₄
        have h₅ := length_stripAnyCase hr
        have : endMark.length = 7 := by decide
        simp only [List.length_append, List.length_drop] at *
        omega

theorem length_stripFence {cs rest : Text} (h : stripFence? cs = some rest) :
    rest.length ≤ cs.length := by
  unfold stripFence? at h
  split at h
  · simp at h
  · rename_i named hn
    rw [stripWord?_eq_some_iff] at hn
    split at h
    · simp at h
    · rename_i tail ht
      have hle : tail.length ≤ named.length := by
        cases h₁ : stripAnyCase? "plantuml" named with
        | some t =>
          rw [h₁] at ht
          have := length_stripAnyCase h₁
          simp only [Option.orElse_some, Option.some.injEq] at ht
          subst ht
          omega
        | none =>
          rw [h₁, Option.orElse_none] at ht
          have := length_stripAnyCase ht
          omega
      simp only at h
      split at h
      · simp only [Option.some.injEq] at h
        subst h hn
        have h₁ := (List.takeWhile_sublist (· != .scalar '\n')
          (l := (tail.takeWhile isBlank).reverse)).length_le
        have h₂ := (List.takeWhile_sublist isBlank (l := tail)).length_le
        simp only [List.length_append, List.length_reverse, List.length_drop] at *
        omega
      · simp at h

theorem shortens_cutFenced : Shortens cutFenced := by
  intro cs c h
  unfold cutFenced at h
  split at h
  · simp at h
  · rename_i before opener ho
    split at h
    · simp at h
    · rename_i inside hi
      split at h
      · simp at h
      · rename_i body closer hc
        simp only [Option.some.injEq] at h
        subst h
        have h₁ := congrArg List.length (breakWhere_append ho)
        have h₂ := length_stripFence hi
        have h₃ := congrArg List.length (breakWhere_append hc)
        have h₄ := holds_of_breakWhere hc
        simp only [startsWith, Option.isSome_iff_exists] at h₄
        obtain ⟨rest, hr⟩ := h₄
        rw [stripWord?_eq_some_iff] at hr
        have h₅ := congrArg List.length hr
        have : fence.length = 3 := by decide
        simp only [List.length_append, List.length_drop] at *
        omega

def marked (page : Text) : List Block := collect cutMarked shortens_cutMarked 0 page

def fenced (page : Text) : List Block := collect cutFenced shortens_cutFenced 0 page

/-- The diagrams of a page: those between marks, then those in fences. -/
def blocks (page : Text) : List Block := marked page ++ fenced page

end ClassGraph.Page
