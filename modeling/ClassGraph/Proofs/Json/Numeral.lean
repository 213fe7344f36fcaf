import ClassGraph.Json.Reader
import ClassGraph.Json.Writer
import ClassGraph.Proofs.Json.Escape
import Mathlib.Data.List.TakeDrop
import Mathlib.Data.List.TakeWhile

/-! # Reading a written number

Numbers and the named values are made of letters, digits, points and signs. What
follows such a value in a written text is none of these, so the reader stops in
front of it and returns what it returns at the end of a text. A whole number is
read back from its digits. Whether a floating point number is read back is a
property of its digits that is left to each number.
-/

namespace ClassGraph

namespace Json

/-- The characters that numbers and named values are made of. -/
def isNumeral (c : Char) : Bool := c.isAlphanum || c == '.' || c == '+' || c == '-'

theorem isNumeral_of_isDigit {c : Char} (h : c.isDigit = true) : isNumeral c = true := by
  simp [isNumeral, Char.isAlphanum, h]

/-- A text in front of which a number ends. -/
def Stops (rest : Text) : Prop := ∀ c ∈ rest.head?, c.satisfies isNumeral = false

theorem stops_nil : Stops [] := nofun

theorem stops_cons {c : Char} (h : isNumeral c = false) (rest : Text) :
    Stops (.scalar c :: rest) := by
  rintro _ ⟨⟩
  exact h

section

variable {rest : Text}

theorem Stops.ne_cons (h : Stops rest) {c : Char} (hc : isNumeral c = true) (cs : Text) :
    rest ≠ .scalar c :: cs := by
  rintro rfl
  have stop := h _ rfl
  rw [CodePoint.satisfies, hc] at stop
  cases stop

/-! ## The reader in front of the rest -/

theorem spanDigits_of_stops (h : Stops rest) : spanDigits rest = ([], rest) := by
  cases rest with
  | nil => rfl
  | cons c rest =>
    have digit : c.satisfies Char.isDigit = false := by
      have stop := h c rfl
      cases c with
      | surrogate index => rfl
      | scalar c =>
        refine Bool.eq_false_iff.mpr fun hd => ?_
        rw [CodePoint.satisfies, isNumeral_of_isDigit hd] at stop
        cases stop
    simp [spanDigits, List.span_eq_takeWhile_dropWhile, digit]

theorem spanDigits_append (h : Stops rest) (cs : Text) :
    spanDigits (cs ++ rest) = ((spanDigits cs).1, (spanDigits cs).2 ++ rest) := by
  induction cs with
  | nil => exact spanDigits_of_stops h
  | cons c cs ih =>
    simp only [spanDigits, List.span_eq_takeWhile_dropWhile, List.cons_append,
      List.takeWhile_cons, List.dropWhile_cons] at ih ⊢
    split
    · rw [(Prod.mk.inj ih).1, (Prod.mk.inj ih).2]
    · rfl

theorem readWhole_of_ne {cs : Text} (h : ∀ r, cs ≠ .scalar '0' :: r) : readWhole cs =
    match spanDigits cs with
    | ([], _) => none
    | (digits, rest) => some (digits, rest) := by
  unfold readWhole
  split
  · exact absurd rfl (h _)
  · rfl

theorem readWhole_append (h : Stops rest) (cs : Text) :
    readWhole (cs ++ rest) = (readWhole cs).map fun (digits, after) => (digits, after ++ rest) := by
  cases cs with
  | nil =>
    rw [List.nil_append, readWhole_of_ne fun r => h.ne_cons (by decide) r, spanDigits_of_stops h]
    rfl
  | cons c cs =>
    by_cases hc : c = .scalar '0'
    · subst hc; rfl
    · have other (r s : Text) : c :: r ≠ .scalar '0' :: s := fun e => hc (List.cons.inj e).1
      rw [List.cons_append, readWhole_of_ne (other _), readWhole_of_ne (other _),
        ← List.cons_append, spanDigits_append h]
      generalize spanDigits (c :: cs) = found
      obtain ⟨_ | ⟨digit, digits⟩, after⟩ := found <;> rfl

theorem readFraction_append (h : Stops rest) (cs : Text) :
    readFraction (cs ++ rest) = ((readFraction cs).1, (readFraction cs).2 ++ rest) := by
  have none_ (cs : Text) (hp : ∀ r, cs ≠ .scalar '.' :: r) : readFraction cs = ([], cs) := by
    unfold readFraction
    split
    · exact absurd rfl (hp _)
    · rfl
  cases cs with
  | nil =>
    rw [List.nil_append, none_ rest fun r => h.ne_cons (by decide) r]
    rfl
  | cons c cs =>
    by_cases hc : c = .scalar '.'
    · subst hc
      simp only [List.cons_append, readFraction, spanDigits_append h]
      generalize spanDigits cs = found
      obtain ⟨_ | ⟨digit, digits⟩, after⟩ := found <;> rfl
    · have other (r s : Text) : c :: r ≠ .scalar '.' :: s := fun e => hc (List.cons.inj e).1
      rw [List.cons_append, none_ _ (other _), none_ _ (other _)]
      rfl

theorem readExponentDigits_of_ne {cs : Text} (minus : ∀ r, cs ≠ .scalar '-' :: r)
    (plus : ∀ r, cs ≠ .scalar '+' :: r) : readExponentDigits cs =
      match spanDigits cs with
      | ([], _) => none
      | (digits, rest) => some ((digitsValue digits : Int), rest) := by
  obtain ⟨digits, after, found⟩ : ∃ digits after, spanDigits cs = (digits, after) := ⟨_, _, rfl⟩
  cases digits <;> simp only [readExponentDigits, found]

theorem readExponentDigits_plus (cs : Text) : readExponentDigits (.scalar '+' :: cs) =
    match spanDigits cs with
    | ([], _) => none
    | (digits, rest) => some ((digitsValue digits : Int), rest) := rfl

theorem readExponentDigits_append (h : Stops rest) (cs : Text) :
    readExponentDigits (cs ++ rest) =
      (readExponentDigits cs).map fun (exponent, after) => (exponent, after ++ rest) := by
  cases cs with
  | nil =>
    rw [List.nil_append, readExponentDigits_of_ne (fun r => h.ne_cons (by decide) r)
      fun r => h.ne_cons (by decide) r, spanDigits_of_stops h]
    rfl
  | cons c cs =>
    by_cases minus : c = .scalar '-'
    · subst minus
      simp only [List.cons_append, readExponentDigits, spanDigits_append h]
      generalize spanDigits cs = found
      obtain ⟨_ | ⟨digit, digits⟩, after⟩ := found <;> rfl
    by_cases plus : c = .scalar '+'
    · subst plus
      rw [List.cons_append, readExponentDigits_plus, readExponentDigits_plus, spanDigits_append h]
      generalize spanDigits cs = found
      obtain ⟨_ | ⟨digit, digits⟩, after⟩ := found <;> rfl
    · have other {d : CodePoint} (hd : c ≠ d) (r s : Text) : c :: r ≠ d :: s :=
        fun e => hd (List.cons.inj e).1
      rw [List.cons_append, readExponentDigits_of_ne (other minus _) (other plus _),
        readExponentDigits_of_ne (other minus _) (other plus _), ← List.cons_append,
        spanDigits_append h]
      generalize spanDigits (c :: cs) = found
      obtain ⟨_ | ⟨digit, digits⟩, after⟩ := found <;> rfl

theorem readExponent_append (h : Stops rest) (cs : Text) :
    readExponent (cs ++ rest) = ((readExponent cs).1, (readExponent cs).2 ++ rest) := by
  cases cs with
  | nil =>
    cases rest with
    | nil => rfl
    | cons c rest =>
      have other : (decide (c = .scalar 'e') || decide (c = .scalar 'E')) = false := by
        simp only [Bool.or_eq_false_iff, decide_eq_false_iff_not]
        constructor
        · rintro rfl; exact h.ne_cons (by decide) rest rfl
        · rintro rfl; exact h.ne_cons (by decide) rest rfl
      simp only [List.nil_append, readExponent, other, Bool.false_eq_true, if_false]
  | cons c cs =>
    simp only [List.cons_append, readExponent, readExponentDigits_append h]
    split
    · cases readExponentDigits cs <;> rfl
    · rfl

/-- A number is read up to where it stops, whatever follows. -/
theorem readMagnitude_append (h : Stops rest) (negative : Bool) (cs : Text) :
    readMagnitude negative (cs ++ rest) =
      (readMagnitude negative cs).map fun (value, after) => (value, after ++ rest) := by
  unfold readMagnitude
  rw [readWhole_append h]
  cases readWhole cs with
  | none => rfl
  | some found =>
    obtain ⟨whole, after⟩ := found
    simp only [Option.map_some, readFraction_append h, readExponent_append h]
    split_ifs <;> rfl

theorem stripWord?_append (h : Stops rest) {word : Text}
    (numeral : ∀ c ∈ word, c.satisfies isNumeral = true) (cs : Text) :
    Text.stripWord? word (cs ++ rest) = (Text.stripWord? word cs).map (· ++ rest) := by
  induction word generalizing cs with
  | nil => rfl
  | cons w word ih =>
    cases cs with
    | nil =>
      cases rest with
      | nil => rfl
      | cons c rest =>
        have differs : w ≠ c := by
          rintro rfl
          have stop := h w rfl
          rw [numeral w List.mem_cons_self] at stop
          cases stop
        simp [Text.stripWord?, differs]
    | cons c cs =>
      simp only [List.cons_append, Text.stripWord?]
      split
      · exact ih (fun d hd => numeral d (List.mem_cons_of_mem _ hd)) cs
      · rfl

theorem readName?_append (h : Stops rest) (cs : Text) :
    readName? (cs ++ rest) = (readName? cs).map fun (value, after) => (value, after ++ rest) := by
  have numeral : ∀ row ∈ names, ∀ c ∈ row.1, c.satisfies isNumeral = true := by
    simp only [names, List.forall_mem_cons]
    decide +kernel
  unfold readName?
  generalize names = rows at numeral
  induction rows with
  | nil => rfl
  | cons row rows ih =>
    have first := stripWord?_append h (numeral row List.mem_cons_self) cs
    have others := ih fun r hr => numeral r (List.mem_cons_of_mem _ hr)
    simp only [List.findSome?_cons, first]
    cases Text.stripWord? row.1 cs with
    | none => exact others
    | some after => rfl

theorem readScalar_named {cs : Text} {found : Json × Text} (h : readName? cs = some found) :
    readScalar cs = .ok found := by
  unfold readScalar
  rw [h]

theorem readScalar_signed {cs : Text} (h : readName? (.scalar '-' :: cs) = none) :
    readScalar (.scalar '-' :: cs) = readMagnitude true cs := by
  simp only [readScalar, h]

theorem readScalar_unsigned {cs : Text} (h : readName? cs = none)
    (minus : ∀ r, cs ≠ .scalar '-' :: r) : readScalar cs = readMagnitude false cs := by
  simp only [readScalar, h]

/-- A value that is neither text, array nor object is read up to where it stops, whatever
follows. -/
theorem readScalar_append (h : Stops rest) (cs : Text) :
    readScalar (cs ++ rest) =
      (readScalar cs).map fun (value, after) => (value, after ++ rest) := by
  have named := readName?_append h cs
  cases hn : readName? cs with
  | some found =>
    rw [hn] at named
    rw [readScalar_named hn, readScalar_named named]
    rfl
  | none =>
    rw [hn] at named
    cases cs with
    | nil =>
      rw [readScalar_unsigned hn nofun, readScalar_unsigned named fun r => h.ne_cons (by decide) r]
      exact readMagnitude_append h false []
    | cons c cs =>
      by_cases minus : c = .scalar '-'
      · subst minus
        rw [readScalar_signed hn]
        exact (readScalar_signed named).trans (readMagnitude_append h true cs)
      · have other (r s : Text) : c :: r ≠ .scalar '-' :: s := fun e => minus (List.cons.inj e).1
        rw [readScalar_unsigned hn (other _), readScalar_unsigned named (other _)]
        exact readMagnitude_append h false (c :: cs)

end

/-! ## Whole numbers -/

/-- Numbers do not begin with a superfluous zero. -/
theorem head?_toDigits_ne {n : Nat} (h : 0 < n) : (Nat.toDigits 10 n).head? ≠ some '0' := by
  induction n using Nat.strongRecOn with
  | ind n ih =>
    rw [Nat.toDigits_eq_if (by decide)]
    by_cases small : n < 10
    · rw [if_pos small]
      have all : ∀ m < 10, 0 < m → [m.digitChar].head? ≠ some '0' := by decide
      exact all n small h
    · rw [if_neg small, List.head?_append_of_ne_nil _ Nat.toDigits_ne_nil]
      exact ih (n / 10) (by omega) (by omega)

/-- The digits of a natural number, as a text. -/
def decimal (n : Nat) : Text := (Nat.toDigits 10 n).map .scalar

theorem length_decimal (n : Nat) : (decimal n).length = (Nat.toDigits 10 n).length :=
  List.length_map ..

theorem spanDigits_decimal (n : Nat) : spanDigits (decimal n) = (decimal n, []) := by
  have digits : ∀ c ∈ decimal n, c.satisfies Char.isDigit = true := by
    intro c hc
    obtain ⟨d, hd, rfl⟩ := List.mem_map.mp hc
    exact Nat.isDigit_of_mem_toDigits (by decide) (by decide) hd
  rw [spanDigits, List.span_eq_takeWhile_dropWhile, List.takeWhile_eq_self_iff.mpr digits,
    List.dropWhile_eq_nil_iff.mpr digits]

theorem digitsValue_decimal (n : Nat) : digitsValue (decimal n) = n := by
  rw [digitsValue, decimal, List.foldl_map]
  exact Nat.ofDigitChars_ten_toDigits

theorem readWhole_decimal (n : Nat) : readWhole (decimal n) = some (decimal n, []) := by
  obtain rfl | positive := Nat.eq_zero_or_pos n
  · rfl
  · have start := head?_toDigits_ne positive
    have found := spanDigits_decimal n
    unfold decimal at found ⊢
    obtain ⟨d, ds, digits⟩ := List.exists_cons_of_ne_nil (Nat.toDigits_ne_nil (n := n) (b := 10))
    rw [digits] at start found ⊢
    have zero : d ≠ '0' := fun e => start (by rw [e]; rfl)
    unfold readWhole
    split
    · rename_i he
      exact absurd (CodePoint.scalar.inj (List.cons.inj he).1) zero
    · rw [found]
      rfl

theorem readMagnitude_decimal (negative : Bool) {n : Nat}
    (h : (Nat.toDigits 10 n).length ≤ maxDigits) :
    readMagnitude negative (decimal n) = .ok (.int (if negative then -n else n), []) := by
  have short : ¬ maxDigits < (decimal n).length := by
    rw [length_decimal]
    omega
  simp [readMagnitude, readWhole_decimal, readFraction, readExponent, short, digitsValue_decimal]

/-- What is no digit does not begin a number. -/
theorem exists_decimal_eq_cons (n : Nat) : ∃ d ds, decimal n = .scalar d :: ds ∧
    ∀ c : Char, c.isDigit = false → c ≠ d := by
  obtain ⟨d, ds, digits⟩ := List.exists_cons_of_ne_nil (Nat.toDigits_ne_nil (n := n) (b := 10))
  have digit : d.isDigit = true :=
    Nat.isDigit_of_mem_toDigits (by decide) (by decide) (digits ▸ List.mem_cons_self)
  refine ⟨d, ds.map .scalar, by rw [decimal, digits, List.map_cons], ?_⟩
  rintro c other rfl
  rw [digit] at other
  cases other

/-- No named value begins with a digit, or with a digit behind a minus sign. -/
theorem readName?_decimal (n : Nat) : readName? (decimal n) = none ∧
    readName? (.scalar '-' :: decimal n) = none := by
  obtain ⟨d, ds, digits, other⟩ := exists_decimal_eq_cons n
  rw [digits]
  constructor
  · simp [readName?, names, Text.ofString, Text.stripWord?, other]
  · simp [readName?, names, Text.ofString, Text.stripWord?, other]

/-- A whole number that is not too long is read back from its digits. -/
theorem readScalar_int {i : Int} (h : (Nat.toDigits 10 i.natAbs).length ≤ maxDigits) :
    readScalar ((toString i).toList.map .scalar) = .ok (.int i, []) := by
  cases i with
  | ofNat n =>
    have digits : (toString (Int.ofNat n)).toList.map CodePoint.scalar = decimal n := by
      show (Nat.repr n).toList.map _ = _
      rw [Nat.repr_eq_ofList_toDigits, String.toList_ofList, decimal]
    have plain (cs : Text) : decimal n ≠ .scalar '-' :: cs := by
      intro he
      have minus : '-' ∈ Nat.toDigits 10 n := by
        have mem : CodePoint.scalar '-' ∈ decimal n := he ▸ List.mem_cons_self
        exact (List.mem_map_of_injective fun _ _ => CodePoint.scalar.inj).mp mem
      exact absurd (Nat.isDigit_of_mem_toDigits (by decide) (by decide) minus) (by decide)
    rw [digits, readScalar_unsigned (readName?_decimal n).1 plain]
    exact readMagnitude_decimal false h
  | negSucc n =>
    have digits : (toString (Int.negSucc n)).toList.map CodePoint.scalar =
        .scalar '-' :: decimal (n + 1) := by
      show ("-" ++ Nat.repr (n + 1)).toList.map _ = _
      simp only [String.toList_append, Nat.repr_eq_ofList_toDigits, String.toList_ofList]
      rfl
    rw [digits, readScalar_signed (readName?_decimal (n + 1)).2]
    exact readMagnitude_decimal true h

/-! ## The characters of a number -/

theorem isNumeral_toDigits (n : Nat) : ∀ c ∈ Nat.toDigits 10 n, isNumeral c = true :=
  fun _ hc => isNumeral_of_isDigit (Nat.isDigit_of_mem_toDigits (by decide) (by decide) hc)

theorem isNumeral_toString {i : Int} : ∀ c ∈ (toString i).toList, isNumeral c = true := by
  have digits (n : Nat) : ∀ c ∈ (Nat.repr n).toList, isNumeral c = true := by
    rw [Nat.repr_eq_ofList_toDigits, String.toList_ofList]
    exact isNumeral_toDigits n
  cases i with
  | ofNat n => exact digits n
  | negSucc n =>
    show ∀ c ∈ ("-" ++ Nat.repr (n + 1)).toList, _
    rw [String.toList_append]
    intro c hc
    rcases List.mem_append.mp hc with hc | hc
    · simp only [String.reduceToList, List.mem_singleton] at hc
      subst hc
      decide
    · exact digits _ c hc

theorem isNumeral_positional {digits : List Char} (h : ∀ c ∈ digits, isNumeral c = true)
    (leading : Int) : ∀ c ∈ Decimal.positional digits leading, isNumeral c = true := by
  have zero : isNumeral '0' = true := by decide
  have point : isNumeral '.' = true := by decide
  intro c hc
  simp only [Decimal.positional] at hc
  split at hc
  · simp only [List.cons_append, List.mem_cons, List.mem_append, List.mem_replicate] at hc
    rcases hc with rfl | rfl | ⟨_, rfl⟩ | hc
    · exact zero
    · exact point
    · exact zero
    · exact h c hc
  · simp only [List.mem_append, List.mem_cons, List.mem_replicate] at hc
    rcases hc with (hc | ⟨_, rfl⟩) | rfl | hc
    · exact h c (List.mem_of_mem_take hc)
    · exact zero
    · exact point
    · split at hc
      · rw [List.mem_singleton.mp hc]; exact zero
      · exact h c (List.mem_of_mem_drop hc)

theorem isNumeral_exponential (style : Decimal.Style) {digits : List Char}
    (h : ∀ c ∈ digits, isNumeral c = true) (leading : Int) :
    ∀ c ∈ Decimal.exponential style digits leading, isNumeral c = true := by
  have tail : ∀ c ∈ 'e' :: (if leading < 0 then '-' else '+') ::
      Decimal.padded style.exponentDigits leading.natAbs, isNumeral c = true := by
    intro c hc
    simp only [Decimal.padded, List.mem_cons, List.mem_append, List.mem_replicate] at hc
    rcases hc with rfl | rfl | ⟨_, rfl⟩ | hc
    · decide
    · split <;> decide
    · decide
    · exact isNumeral_toDigits _ c hc
  intro c hc
  simp only [Decimal.exponential] at hc
  split at hc
  · exact tail c hc
  · rcases List.mem_cons.mp hc with rfl | hc
    · exact h c List.mem_cons_self
    · exact tail c hc
  · simp only [List.cons_append, List.mem_cons, List.mem_append] at hc
    rcases hc with rfl | rfl | hc | hc
    · exact h c List.mem_cons_self
    · decide
    · exact h c (List.mem_cons_of_mem _ hc)
    · exact tail c (by simpa using hc)

theorem isNumeral_write64 (x : Float) :
    ∀ c ∈ (Decimal.write64 numberStyle x).toList, isNumeral c = true := by
  have digits (s : Decimal.Scientific) : ∀ c ∈ s.write numberStyle, isNumeral c = true := by
    simp only [Decimal.Scientific.write]
    split
    · exact isNumeral_positional (isNumeral_toDigits _) _
    · exact isNumeral_exponential _ (isNumeral_toDigits _) _
  unfold Decimal.write64
  split
  · exact List.all_eq_true.mp rfl
  · split <;> exact List.all_eq_true.mp rfl
  · split
    · intro c hc
      rw [String.toList_ofList] at hc
      rcases List.mem_cons.mp hc with rfl | hc
      · decide
      · exact digits _ c hc
    · intro c hc
      rw [String.toList_ofList] at hc
      exact digits _ c hc

end Json

end ClassGraph
