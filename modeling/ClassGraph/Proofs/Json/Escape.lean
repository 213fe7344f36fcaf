import ClassGraph.Json.Reader
import ClassGraph.Json.Writer
import Mathlib.Algebra.Group.Nat.Defs
import Mathlib.Data.List.Chain
import Mathlib.Data.Nat.Basic

/-! # Reading an escaped text

A text is written code point by code point, and each piece is read back as the
code point that it was made of. Only a surrogate needs to look ahead: the unit of
one that opens a pair is read together with the unit behind it if that closes the
pair. The writer makes such a neighbour out of a character beyond the basic plane
alone, unless two surrogates stand side by side in the text that make up a pair.
A text without such neighbours comes back.
-/

namespace ClassGraph

namespace CodePoint

/-- Two code points that are the two halves of a surrogate pair. -/
def Pairs (a b : CodePoint) : Prop := opensPair a.code = true ∧ closesPair b.code = true

instance (a b : CodePoint) : Decidable (a.Pairs b) := inferInstanceAs (Decidable (_ ∧ _))

theorem code_scalar (c : Char) : (scalar c).code = c.toNat := rfl

theorem opensPair_scalar (c : Char) : opensPair c.toNat = false := by
  have valid : c.toNat.isValidChar := c.valid
  unfold Nat.isValidChar at valid
  simp only [opensPair, Bool.and_eq_false_iff, decide_eq_false_iff_not]
  omega

theorem closesPair_scalar (c : Char) : closesPair c.toNat = false := by
  have valid : c.toNat.isValidChar := c.valid
  unfold Nat.isValidChar at valid
  simp only [closesPair, Bool.and_eq_false_iff, decide_eq_false_iff_not]
  omega

theorem ofNat_code (c : CodePoint) : ofNat c.code = c := by
  cases c with
  | scalar c =>
    have valid : c.toNat.isValidChar := c.valid
    rw [code_scalar, ofNat, ofNat?, dif_pos valid]
    rfl
  | surrogate index =>
    have invalid : ¬ (0xd800 + index.val).isValidChar := by
      unfold Nat.isValidChar
      omega
    have inside : 0xd800 ≤ 0xd800 + index.val ∧ 0xd800 + index.val < 0xe000 := by omega
    show ofNat (0xd800 + index.val) = surrogate index
    rw [ofNat, ofNat?, dif_neg invalid, dif_pos inside]
    simp

theorem code_lt (c : CodePoint) : c.code < 0x110000 := by
  cases c with
  | scalar c =>
    have valid : c.toNat.isValidChar := c.valid
    unfold Nat.isValidChar at valid
    rw [code_scalar]
    omega
  | surrogate index =>
    show 0xd800 + index.val < _
    omega

/-- A character beyond the basic plane is the pair of its two halves. -/
theorem ofPair_halves {c : Char} (h : 0x10000 ≤ c.toNat) :
    ofPair (0xd800 + (c.toNat - 0x10000) / 0x400) (0xdc00 + (c.toNat - 0x10000) % 0x400) =
      scalar c := by
  have sum : 0x10000 + (0xd800 + (c.toNat - 0x10000) / 0x400 - 0xd800) * 0x400 +
      (0xdc00 + (c.toNat - 0x10000) % 0x400 - 0xdc00) = c.toNat := by omega
  rw [ofPair, sum, ← code_scalar, ofNat_code]

end CodePoint

/-- A text in which no opening surrogate stands directly in front of a closing one. -/
def Text.Joined (t : Text) : Prop := t.IsChain fun a b => ¬ a.Pairs b

namespace Text

instance (t : Text) : Decidable t.Joined := inferInstanceAs (Decidable (List.IsChain _ _))

theorem Joined.part {s t : Text} (h : t.Joined) (hs : s <:+: t) : s.Joined :=
  List.IsChain.infix h hs

theorem joined_nil : Joined [] := List.isChain_nil

theorem joined_cons_iff {c : CodePoint} {t : Text} :
    Joined (c :: t) ↔ (∀ d ∈ t.head?, ¬ c.Pairs d) ∧ t.Joined :=
  List.isChain_cons

theorem Joined.cons {t : Text} (h : t.Joined) (c : Char) : Joined (.scalar c :: t) := by
  refine joined_cons_iff.mpr ⟨fun d _ pair => ?_, h⟩
  exact absurd pair.1 (by rw [CodePoint.code_scalar, CodePoint.opensPair_scalar]; nofun)

/-- Texts joined by a character stay joined. -/
theorem Joined.append {s t : Text} (hs : s.Joined) (c : Char) (ht : t.Joined) :
    Joined (s ++ .scalar c :: t) := by
  refine List.IsChain.append hs (ht.cons c) ?_
  intro a _ b hb pair
  cases hb
  exact absurd pair.2 (by rw [CodePoint.code_scalar, CodePoint.closesPair_scalar]; nofun)

theorem joined_of_isEncodable {t : Text} (h : t.isEncodable = true) : t.Joined := by
  induction t with
  | nil => exact joined_nil
  | cons c t ih =>
    simp only [isEncodable, List.any_cons, Bool.not_or, Bool.and_eq_true] at h
    cases c with
    | scalar c => exact (ih h.2).cons c
    | surrogate index => simp [CodePoint.isSurrogate] at h

theorem isEncodable_ofString (s : String) : (ofString s).isEncodable = true := by
  simp [isEncodable, ofString, CodePoint.isSurrogate]

/-! ## Units -/

theorem readHex?_hexDigits (width n : Nat) :
    readHex? ((hexDigits width n).map .scalar) = some (n % 16 ^ width) := by
  induction width generalizing n with
  | zero => simp [hexDigits, readHex?, Nat.mod_one]
  | succ width ih =>
    have digit : hexValue? (hexDigit (n % 16)) = some (n % 16) :=
      hexValue_hexDigit (Nat.mod_lt _ (by decide))
    have front := ih (n / 16)
    simp only [readHex?] at front
    rw [hexDigits, List.map_append, readHex?, List.foldlM_append, front]
    simp only [Option.bind_eq_bind, Option.bind_some, List.map_cons, List.map_nil,
      List.foldlM_cons, List.foldlM_nil, CodePoint.char?, digit, Option.map_some, Option.pure_def]
    rw [Nat.pow_succ, Nat.mul_comm (16 ^ width), Nat.mod_mul, Nat.add_comm]

end Text

namespace Json

/-- The characters between the quotation marks of a written text. -/
def escaped (t : Text) : Text := (t.flatMap writeCodePoint).map .scalar

@[simp]
theorem escaped_nil : escaped [] = [] := rfl

theorem escaped_cons (c : CodePoint) (t : Text) :
    escaped (c :: t) = (writeCodePoint c).map .scalar ++ escaped t := by
  rw [escaped, List.flatMap_cons, List.map_append, escaped]

theorem map_writeText (t : Text) :
    (writeText t).map CodePoint.scalar = .scalar '"' :: (escaped t ++ [.scalar '"']) := by
  rw [writeText, List.map_append, List.map_cons]
  rfl

/-- How a character is written: behind a backslash by a letter of its own, as it is, by its number,
or as the two halves of a pair. -/
inductive Spells (c : Char) : List Char → Prop
  | short {letter : Char} (stands : shortEscape? letter = some (.scalar c)) :
      Spells c ['\\', letter]
  | plain (quote : c ≠ '"') (escape : c ≠ '\\') (shown : 0x20 ≤ c.toNat) : Spells c [c]
  | unit (basic : c.toNat < 0x10000) : Spells c (writeUnit c.toNat)
  | pair (beyond : 0x10000 ≤ c.toNat) :
      Spells c (writeUnit (0xd800 + (c.toNat - 0x10000) / 0x400) ++
        writeUnit (0xdc00 + (c.toNat - 0x10000) % 0x400))

theorem spells_writeChar (c : Char) : Spells c (writeChar c) := by
  have named {n : Nat} (h : c.toNat = n) : CodePoint.scalar c = .ofNat n := by
    rw [← h, ← CodePoint.code_scalar, CodePoint.ofNat_code]
  unfold writeChar
  split_ifs with h₁ h₂ h₃ h₄ h₅ h₆ h₇ h₈
  · simp only [Bool.or_eq_true, decide_eq_true_eq] at h₁
    refine .short ?_
    rcases h₁ with rfl | rfl <;> decide
  · exact .short (h₂ ▸ by decide)
  · exact .short (h₃ ▸ by decide)
  · exact .short (h₄ ▸ by decide)
  · exact .short (named h₅ ▸ by decide)
  · exact .short (named h₆ ▸ by decide)
  · simp only [Bool.or_eq_true, decide_eq_true_eq, not_or] at h₁
    simp only [Bool.and_eq_true, decide_eq_true_eq] at h₇
    exact .plain h₁.1 h₁.2 h₇.1
  · exact .unit h₈
  · exact .pair (by omega)

/-- A unit is written in four digits, which are read back. -/
theorem exists_digits {unit : Nat} (h : unit < 0x10000) : ∃ a b c d : CodePoint,
    (writeUnit unit).map CodePoint.scalar = [.scalar '\\', .scalar 'u', a, b, c, d] ∧
      Text.readHex? [a, b, c, d] = some unit := by
  have value := Text.readHex?_hexDigits 4 unit
  rw [Nat.mod_eq_of_lt (show unit < 16 ^ 4 from h)] at value
  have width : ((Text.hexDigits 4 unit).map CodePoint.scalar).length = 4 := by
    rw [List.length_map, Text.length_hexDigits]
  obtain ⟨a, b, c, d, digits⟩ : ∃ a b c d : CodePoint,
      (Text.hexDigits 4 unit).map CodePoint.scalar = [a, b, c, d] :=
    ⟨_, _, _, _, rfl⟩
  exact ⟨a, b, c, d, by rw [← digits]; rfl, digits ▸ value⟩

theorem closingUnit?_writeUnit {unit : Nat} (h : unit < 0x10000) (rest : Text) :
    closingUnit? ((writeUnit unit).map .scalar ++ rest) =
      if CodePoint.closesPair unit then some (unit, rest) else none := by
  obtain ⟨a, b, c, d, digits, value⟩ := exists_digits h
  rw [digits]
  simp only [List.cons_append, List.nil_append, closingUnit?, value]

theorem closingUnit?_of_ne {c : CodePoint} (h : c ≠ .scalar '\\') (rest : Text) :
    closingUnit? (c :: rest) = none := by
  unfold closingUnit?
  split
  · rename_i he
    exact absurd (List.cons.inj he).1 h
  · rfl

theorem closingUnit?_of_letter {c : CodePoint} (h : c ≠ .scalar 'u') (rest : Text) :
    closingUnit? (.scalar '\\' :: c :: rest) = none := by
  unfold closingUnit?
  split
  · rename_i he
    exact absurd (List.cons.inj (List.cons.inj he).2).1 h
  · rfl

/-- What stands for a code point that closes no pair is not read as the other half of one. -/
theorem closingUnit?_writeCodePoint {c : CodePoint} (h : CodePoint.closesPair c.code = false)
    (rest : Text) : closingUnit? ((writeCodePoint c).map .scalar ++ rest) = none := by
  have unit {code : Nat} (hc : code < 0x10000) (open_ : CodePoint.closesPair code = false)
      (rest : Text) : closingUnit? ((writeUnit code).map .scalar ++ rest) = none := by
    rw [closingUnit?_writeUnit hc, open_]
    rfl
  cases c with
  | surrogate index =>
    refine unit ?_ h rest
    show 0xd800 + index.val < _
    omega
  | scalar c =>
    show closingUnit? ((writeChar c).map .scalar ++ rest) = none
    have spells := spells_writeChar c
    generalize writeChar c = written at spells
    cases spells with
    | @short letter stands =>
      refine closingUnit?_of_letter (fun e => ?_) _
      rw [e] at stands
      cases stands
    | plain quote escape shown =>
      exact closingUnit?_of_ne (fun e => escape (CodePoint.scalar.inj e)) _
    | unit basic => exact unit basic h rest
    | pair beyond =>
      rw [List.map_append, List.append_assoc]
      have bound := CodePoint.code_lt (.scalar c)
      rw [CodePoint.code_scalar] at bound
      refine unit (by omega) ?_ _
      simp only [CodePoint.closesPair, Bool.and_eq_false_iff, decide_eq_false_iff_not]
      omega

/-! ## Code points -/

theorem readString_writeUnit {unit : Nat} (h : unit < 0x10000) (rest : Text) :
    readString ((writeUnit unit).map .scalar ++ rest) =
      (readString (resolveUnit unit rest).2).map fun (text, after) =>
        ((resolveUnit unit rest).1 :: text, after) := by
  obtain ⟨a, b, c, d, digits, value⟩ := exists_digits h
  rw [digits]
  simp only [List.cons_append, List.nil_append]
  rw [readString, value]

theorem readString_short {c : Char} {d : CodePoint} (h : shortEscape? c = some d) (rest : Text) :
    readString (.scalar '\\' :: .scalar c :: rest) =
      (readString rest).map fun (text, after) => (d :: text, after) := by
  rw [readString, h]
  rintro _ _ _ _ _ he
  rw [he] at h
  cases h

theorem readString_plain {c : CodePoint} (quote : c ≠ .scalar '"') (escape : c ≠ .scalar '\\')
    (shown : 0x20 ≤ c.code) (rest : Text) :
    readString (c :: rest) = (readString rest).map fun (text, after) => (c :: text, after) := by
  have clear : (decide (c.code < 0x20) || decide (c = .scalar '\\')) = false := by
    simp only [Bool.or_eq_false_iff, decide_eq_false_iff_not]
    exact ⟨by omega, escape⟩
  rw [readString, clear]
  · rfl
  · exact quote
  · exact fun _ _ _ _ _ he => absurd he escape
  · exact fun _ _ he => absurd he escape

/-- Units that do not open a pair stand for themselves. -/
theorem resolveUnit_of_closed {unit : Nat} {rest : Text}
    (h : CodePoint.opensPair unit = true → closingUnit? rest = none) :
    resolveUnit unit rest = (.ofNat unit, rest) := by
  unfold resolveUnit
  split
  · rw [h ‹_›]
  · rfl

/-- Two units that make up a pair are read as one character. -/
theorem readString_writePair {high low : Nat} (opens : CodePoint.opensPair high = true)
    (closes : CodePoint.closesPair low = true) (rest : Text) :
    readString ((writeUnit high ++ writeUnit low).map .scalar ++ rest) =
      (readString rest).map fun (text, after) => (.ofPair high low :: text, after) := by
  have bounds : high < 0x10000 ∧ low < 0x10000 := by
    simp only [CodePoint.opensPair, CodePoint.closesPair, Bool.and_eq_true,
      decide_eq_true_eq] at opens closes
    omega
  have resolved : resolveUnit high ((writeUnit low).map .scalar ++ rest) =
      (.ofPair high low, rest) := by
    rw [resolveUnit, if_pos opens, closingUnit?_writeUnit bounds.2, if_pos closes]
  rw [List.map_append, List.append_assoc, readString_writeUnit bounds.1, resolved]

/-- What stands for a code point is read as that code point, unless the surrogate that it is makes
up a pair with what follows. -/
theorem readString_writeCodePoint {c : CodePoint} {rest : Text}
    (h : CodePoint.opensPair c.code = true → closingUnit? rest = none) :
    readString ((writeCodePoint c).map .scalar ++ rest) =
      (readString rest).map fun (text, after) => (c :: text, after) := by
  have unit (hc : c.code < 0x10000) : readString ((writeUnit c.code).map .scalar ++ rest) =
      (readString rest).map fun (text, after) => (c :: text, after) := by
    rw [readString_writeUnit hc, resolveUnit_of_closed h, CodePoint.ofNat_code]
  cases c with
  | surrogate index =>
    refine unit ?_
    show 0xd800 + index.val < _
    omega
  | scalar c =>
    show readString ((writeChar c).map .scalar ++ rest) = _
    have spells := spells_writeChar c
    generalize writeChar c = written at spells
    cases spells with
    | short stands => exact readString_short stands rest
    | plain quote escape shown =>
      refine readString_plain (c := .scalar c) ?_ ?_ shown rest
      · exact fun e => quote (CodePoint.scalar.inj e)
      · exact fun e => escape (CodePoint.scalar.inj e)
    | unit basic => exact unit basic
    | pair beyond =>
      have bound := CodePoint.code_lt (.scalar c)
      rw [CodePoint.code_scalar] at bound
      rw [readString_writePair, CodePoint.ofPair_halves beyond]
      · simp only [CodePoint.opensPair, Bool.and_eq_true, decide_eq_true_eq]
        omega
      · simp only [CodePoint.closesPair, Bool.and_eq_true, decide_eq_true_eq]
        omega

/-! ## Texts -/

/-- A text without neighbours that make up a pair is read back from what is written for it. -/
theorem readString_escaped {t : Text} (h : t.Joined) (after : Text) :
    readString (escaped t ++ .scalar '"' :: after) = .ok (t, after) := by
  induction t with
  | nil => rw [escaped_nil, List.nil_append, readString]
  | cons c t ih =>
    obtain ⟨apart, joined⟩ := Text.joined_cons_iff.mp h
    have behind (opens : CodePoint.opensPair c.code = true) :
        closingUnit? (escaped t ++ .scalar '"' :: after) = none := by
      cases t with
      | nil => exact closingUnit?_of_ne (by decide) _
      | cons d t =>
        rw [escaped_cons, List.append_assoc]
        refine closingUnit?_writeCodePoint ?_ _
        exact Bool.eq_false_iff.mpr fun closes => apart d rfl ⟨opens, closes⟩
    rw [escaped_cons, List.append_assoc, readString_writeCodePoint behind, ih joined]
    rfl

/-- Half a pair keeps its place between characters, but two halves side by side are read as the
one character that they make up. -/
example : readString (escaped [.surrogate 0, 'a', .surrogate 0x400] ++ ("\"" : String)) =
      .ok ([.surrogate 0, 'a', .surrogate 0x400], []) ∧
    readString (escaped [.surrogate 0, .surrogate 0x400] ++ ("\"" : String)) =
      .ok ([.scalar (Char.ofNat 0x10000)], []) := by
  decide +kernel

end Json

end ClassGraph
