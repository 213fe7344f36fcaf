import ClassGraph.Proofs.Json.Restoration
import Mathlib.Data.List.TakeWhile

/-! # What is read can be written and read again

The reader returns tidy values: no key stands twice in an object, no whole number
is too long, and no text holds two surrogates that make up a pair, as long as the
characters that are read hold no surrogates. A tidy value whose floating point
numbers come back is restorable.
-/

namespace ClassGraph

namespace Text

theorem isEncodable_iff {t : Text} : t.isEncodable = true ↔ ∀ c ∈ t, c.isSurrogate = false := by
  simp [isEncodable]

theorem isEncodable_of_part {s t : Text} (h : t.isEncodable = true) (hs : s <:+: t) :
    s.isEncodable = true :=
  isEncodable_iff.mpr fun c hc => isEncodable_iff.mp h c (hs.subset hc)

theorem isEncodable_unifyLineEnds {t : Text} (h : t.isEncodable = true) :
    (unifyLineEnds t).isEncodable = true := by
  rw [isEncodable_iff] at h ⊢
  fun_induction unifyLineEnds t with
  | case1 rest ih =>
    have behind := (List.forall_mem_cons.mp (List.forall_mem_cons.mp h).2).2
    exact List.forall_mem_cons.mpr ⟨rfl, ih behind⟩
  | case2 c rest _ ih =>
    obtain ⟨first, behind⟩ := List.forall_mem_cons.mp h
    refine List.forall_mem_cons.mpr ⟨?_, ih behind⟩
    split
    · rfl
    · exact first
  | case3 => exact List.forall_mem_nil _

end Text

namespace CodePoint

theorem code_ofNat (n : Nat) : (ofNat n).code = n ∨ (ofNat n).code = 0xfffd := by
  rw [ofNat]
  cases h : ofNat? n with
  | none => exact .inr rfl
  | some c => exact .inl (code_of_ofNat? h)

theorem opensPair_of_ofNat {n : Nat} (h : opensPair (ofNat n).code = true) :
    opensPair n = true := by
  rcases code_ofNat n with hn | hn
  · rwa [hn] at h
  · rw [hn] at h; cases h

theorem closesPair_of_ofNat {n : Nat} (h : closesPair (ofNat n).code = true) :
    closesPair n = true := by
  rcases code_ofNat n with hn | hn
  · rwa [hn] at h
  · rw [hn] at h; cases h

/-- A pair makes up a character beyond the basic plane, which is no half of a pair. -/
theorem code_ofPair (high low : Nat) : 0x10000 ≤ (ofPair high low).code ∨
    (ofPair high low).code = 0xfffd := by
  rcases code_ofNat (0x10000 + (high - 0xd800) * 0x400 + (low - 0xdc00)) with h | h
  · rw [ofPair, h]
    omega
  · exact .inr h

theorem not_opensPair_ofPair {high low : Nat} : opensPair (ofPair high low).code = false := by
  simp only [opensPair, Bool.and_eq_false_iff, decide_eq_false_iff_not]
  rcases code_ofPair high low with h | h <;> omega

theorem not_closesPair_ofPair {high low : Nat} : closesPair (ofPair high low).code = false := by
  simp only [closesPair, Bool.and_eq_false_iff, decide_eq_false_iff_not]
  rcases code_ofPair high low with h | h <;> omega

end CodePoint

namespace Json

/-! ## Texts -/

theorem suffix_of_closingUnit? {cs rest : Text} {unit : Nat}
    (h : closingUnit? cs = some (unit, rest)) : rest <:+ cs := by
  unfold closingUnit? at h
  split at h
  · rename_i a b c d behind
    split at h
    · split at h
      · cases h
        exact ⟨[.scalar '\\', .scalar 'u', a, b, c, d], rfl⟩
      · cases h
    · cases h
  · cases h

theorem suffix_resolveUnit (unit : Nat) (rest : Text) : (resolveUnit unit rest).2 <:+ rest := by
  unfold resolveUnit
  split
  · split
    · exact suffix_of_closingUnit? ‹_›
    · exact List.suffix_refl _
  · exact List.suffix_refl _

/-- An opening surrogate stands alone only if no closing one follows. -/
theorem resolveUnit_of_opens {unit : Nat} {rest : Text}
    (h : CodePoint.opensPair (resolveUnit unit rest).1.code = true) :
    closingUnit? rest = none ∧ (resolveUnit unit rest).2 = rest := by
  by_cases opens : CodePoint.opensPair unit = true
  · simp only [resolveUnit, opens, if_true] at h ⊢
    cases hc : closingUnit? rest with
    | none => exact ⟨rfl, rfl⟩
    | some found =>
      rw [hc] at h
      simp only [CodePoint.not_opensPair_ofPair] at h
      cases h
  · simp only [resolveUnit, opens] at h
    exact absurd (CodePoint.opensPair_of_ofNat h) opens

/-- A closing surrogate that is read as a unit stands there as such a unit. -/
theorem closesPair_of_resolveUnit {unit : Nat} {rest : Text}
    (h : CodePoint.closesPair (resolveUnit unit rest).1.code = true) :
    CodePoint.closesPair unit = true := by
  unfold resolveUnit at h
  split at h
  · split at h
    · simp only [CodePoint.not_closesPair_ofPair] at h
      cases h
    · exact CodePoint.closesPair_of_ofNat h
  · exact CodePoint.closesPair_of_ofNat h

theorem exists_char_of_shortEscape? {c d : CodePoint} (h : shortEscape? c = some d) :
    ∃ e : Char, d = .scalar e := by
  unfold shortEscape? at h
  split_ifs at h with h₁
  · simp only [Bool.or_eq_true, decide_eq_true_eq] at h₁
    cases h
    rcases h₁ with (rfl | rfl) | rfl
    · exact ⟨_, rfl⟩
    · exact ⟨_, rfl⟩
    · exact ⟨_, rfl⟩
  all_goals exact ⟨_, (Option.some.inj h).symm⟩

theorem exists_of_map_eq_ok {ε α β : Type} {f : α → β} {r : Except ε α} {b : β}
    (h : r.map f = .ok b) : ∃ a, r = .ok a ∧ f a = b := by
  cases r with
  | error e => cases h
  | ok a => exact ⟨a, rfl, Except.ok.inj h⟩

theorem exists_of_map_cons {r : Except Fault (Text × Text)} {c : CodePoint} {t after : Text}
    (h : (r.map fun (text, after) => (c :: text, after)) = .ok (t, after)) :
    ∃ text, t = c :: text ∧ r = .ok (text, after) := by
  obtain ⟨⟨text, rest⟩, read, he⟩ := exists_of_map_eq_ok h
  cases he
  exact ⟨text, rfl, read⟩

/-- What is read from characters begins with a closing surrogate only where such a unit is
escaped. -/
theorem closingUnit?_of_readString {cs t after : Text} {d : CodePoint}
    (clean : cs.isEncodable = true) (h : readString cs = .ok (d :: t, after))
    (closes : CodePoint.closesPair d.code = true) : closingUnit? cs ≠ none := by
  have plain {c : Char} : d ≠ .scalar c := by
    rintro rfl
    rw [CodePoint.code_scalar, CodePoint.closesPair_scalar] at closes
    cases closes
  rw [readString.eq_def] at h
  split at h
  · cases h
  · cases h
  · rename_i a b c e rest
    split at h
    · cases h
    · rename_i unit value
      obtain ⟨_, he, _⟩ := exists_of_map_cons h
      obtain ⟨rfl, _⟩ := List.cons.inj he
      simp only [closingUnit?, value, closesPair_of_resolveUnit closes, if_true]
      nofun
  · split at h
    · cases h
    · rename_i e short
      obtain ⟨_, he, _⟩ := exists_of_map_cons h
      obtain ⟨rfl, _⟩ := List.cons.inj he
      obtain ⟨c, rfl⟩ := exists_char_of_shortEscape? short
      exact absurd rfl plain
  · rename_i c rest _ _ _
    split at h
    · cases h
    · obtain ⟨_, he, _⟩ := exists_of_map_cons h
      obtain ⟨rfl, _⟩ := List.cons.inj he
      have scalar := Text.isEncodable_iff.mp clean d List.mem_cons_self
      cases d with
      | scalar c => exact absurd rfl plain
      | surrogate index => cases scalar

/-- A text that is read from characters is joined, and what follows is the end of the characters. -/
theorem joined_of_readString {cs t after : Text} (clean : cs.isEncodable = true)
    (h : readString cs = .ok (t, after)) : t.Joined ∧ after <:+ cs := by
  fun_induction readString cs generalizing t with
  | case1 => cases h
  | case2 rest =>
    cases h
    exact ⟨Text.joined_nil, List.suffix_cons _ _⟩
  | case3 => cases h
  | case4 a b c d rest unit value _ ih =>
    have suffix : (resolveUnit unit rest).2 <:+
        .scalar '\\' :: .scalar 'u' :: a :: b :: c :: d :: rest :=
      (suffix_resolveUnit unit rest).trans ⟨[.scalar '\\', .scalar 'u', a, b, c, d], rfl⟩
    have clean' := Text.isEncodable_of_part clean suffix.isInfix
    obtain ⟨text, rfl, read⟩ := exists_of_map_cons h
    obtain ⟨joined, behind⟩ := ih clean' read
    refine ⟨Text.joined_cons_iff.mpr ⟨fun d hd pair => ?_, joined⟩, behind.trans suffix⟩
    -- an opening surrogate was read alone, so what is read behind it closes nothing
    obtain ⟨alone, same⟩ := resolveUnit_of_opens pair.1
    rw [same] at read clean'
    rw [List.eq_cons_of_mem_head? hd] at read
    exact closingUnit?_of_readString clean' read pair.2 alone
  | case5 => cases h
  | case6 c rest _ d short ih =>
    have suffix : rest <:+ .scalar '\\' :: c :: rest := ⟨[.scalar '\\', c], rfl⟩
    obtain ⟨text, rfl, read⟩ := exists_of_map_cons h
    obtain ⟨joined, behind⟩ := ih (Text.isEncodable_of_part clean suffix.isInfix) read
    obtain ⟨e, rfl⟩ := exists_char_of_shortEscape? short
    exact ⟨joined.cons e, behind.trans suffix⟩
  | case7 => cases h
  | case8 c rest _ _ _ shown ih =>
    have suffix : rest <:+ c :: rest := List.suffix_cons _ _
    obtain ⟨text, rfl, read⟩ := exists_of_map_cons h
    obtain ⟨joined, behind⟩ := ih (Text.isEncodable_of_part clean suffix.isInfix) read
    have scalar := Text.isEncodable_iff.mp clean c List.mem_cons_self
    cases c with
    | scalar c => exact ⟨joined.cons c, behind.trans suffix⟩
    | surrogate index => cases scalar

/-! ## Numbers -/

theorem suffix_skipGap (cs : Text) : skipGap cs <:+ cs := List.dropWhile_suffix _

theorem of_spanDigits {cs digits rest : Text} (h : spanDigits cs = (digits, rest)) :
    rest <:+ cs ∧ ∀ c ∈ digits, c.satisfies Char.isDigit = true := by
  rw [spanDigits, List.span_eq_takeWhile_dropWhile] at h
  cases h
  exact ⟨List.dropWhile_suffix _, fun _ hc => List.mem_takeWhile_imp hc⟩

theorem of_readWhole {cs digits rest : Text} (h : readWhole cs = some (digits, rest)) :
    rest <:+ cs ∧ ∀ c ∈ digits, c.satisfies Char.isDigit = true := by
  unfold readWhole at h
  split at h
  · cases h
    exact ⟨List.suffix_cons _ _, by decide⟩
  · split at h
    · cases h
    · cases h
      exact of_spanDigits ‹_›

theorem suffix_readFraction (cs : Text) : (readFraction cs).2 <:+ cs := by
  unfold readFraction
  split
  · split
    · exact List.suffix_refl _
    · exact (of_spanDigits ‹_›).1.trans (List.suffix_cons _ _)
  · exact List.suffix_refl _

theorem suffix_of_readExponentDigits {cs rest : Text} {exponent : Int}
    (h : readExponentDigits cs = some (exponent, rest)) : rest <:+ cs := by
  unfold readExponentDigits at h
  split at h
  · split at h
    · cases h
    · cases h
      exact (of_spanDigits ‹_›).1.trans (List.suffix_cons _ _)
  · split at h
    · cases h
    · cases h
      refine (of_spanDigits ‹_›).1.trans ?_
      split
      · exact List.suffix_cons _ _
      · exact List.suffix_refl _

theorem suffix_readExponent (cs : Text) : (readExponent cs).2 <:+ cs := by
  unfold readExponent
  split
  · split
    · split
      · exact (suffix_of_readExponentDigits ‹_›).trans (List.suffix_cons _ _)
      · exact List.suffix_refl _
    · exact List.suffix_refl _
  · exact List.suffix_refl _

theorem code_le_of_isDigit {c : CodePoint} (h : c.satisfies Char.isDigit = true) :
    c.code - '0'.toNat ≤ 9 := by
  cases c with
  | surrogate index => cases h
  | scalar c =>
    have range : c.toNat ≤ 57 := by
      simp only [CodePoint.satisfies, Char.isDigit, Bool.and_eq_true, decide_eq_true_eq] at h
      exact h.2
    show c.toNat - 48 ≤ 9
    omega

theorem digitsValue_lt {digits : Text} (h : ∀ c ∈ digits, c.satisfies Char.isDigit = true) :
    digitsValue digits < 10 ^ digits.length := by
  have from_ (start : Nat) : digits.foldl (fun value c => 10 * value + (c.code - '0'.toNat)) start <
      10 ^ digits.length * (start + 1) := by
    induction digits generalizing start with
    | nil => simp
    | cons c digits ih =>
      have digit := code_le_of_isDigit (h c List.mem_cons_self)
      have others := ih (fun d hd => h d (List.mem_cons_of_mem _ hd))
        (10 * start + (c.code - '0'.toNat))
      rw [List.foldl_cons, List.length_cons, Nat.pow_succ, Nat.mul_assoc]
      exact Nat.lt_of_lt_of_le others (Nat.mul_le_mul_left _ (by omega))
  have bounded := from_ 0
  rwa [Nat.zero_add, Nat.mul_one] at bounded

/-- Digits denote a number of no more digits. -/
theorem length_toDigits_digitsValue {digits : Text}
    (h : ∀ c ∈ digits, c.satisfies Char.isDigit = true) {bound : Nat} (positive : 0 < bound)
    (short : digits.length ≤ bound) :
    (Nat.toDigits 10 (digitsValue digits)).length ≤ bound := by
  rw [Nat.length_toDigits_le_iff (by decide) positive]
  exact Nat.lt_of_lt_of_le (digitsValue_lt h) (Nat.pow_le_pow_right (by decide) short)

theorem readMagnitude_eq_ok {negative : Bool} {cs rest : Text} {v : Json}
    (h : readMagnitude negative cs = .ok (v, rest)) : rest <:+ cs ∧ ((∃ x, v = .real x) ∨
      ∃ i : Int, v = .int i ∧ (Nat.toDigits 10 i.natAbs).length ≤ maxDigits) := by
  unfold readMagnitude at h
  split at h
  · cases h
  · rename_i whole behind found
    obtain ⟨suffix, digits⟩ := of_readWhole found
    have suffix' : (readExponent (readFraction behind).2).2 <:+ cs :=
      ((suffix_readExponent _).trans (suffix_readFraction _)).trans suffix
    simp only at h
    split at h
    · split at h
      · cases h
      · rename_i short
        have bounded := length_toDigits_digitsValue digits (by decide) (Nat.le_of_not_lt short)
        cases h
        refine ⟨suffix', .inr ⟨_, rfl, ?_⟩⟩
        split
        · rwa [Int.natAbs_neg]
        · exact bounded
    · cases h
      exact ⟨suffix', .inl ⟨_, rfl⟩⟩

/-! ## Values -/

/-- A value that the reader may return: no key stands twice in an object, no whole number is too
long, and texts and keys are joined. -/
inductive Tidy : Json → Prop
  | null : Tidy .null
  | bool (b : Bool) : Tidy (.bool b)
  | int {i : Int} (short : (Nat.toDigits 10 i.natAbs).length ≤ maxDigits) : Tidy (.int i)
  | real (x : Float) : Tidy (.real x)
  | str {t : Text} (joined : t.Joined) : Tidy (.str t)
  | arr {items : List Json} (all : ∀ item ∈ items, Tidy item) : Tidy (.arr items)
  | obj {members : List (Text × Json)} (distinct : (members.map Prod.fst).Nodup)
      (keys : ∀ m ∈ members, m.1.Joined) (values : ∀ m ∈ members, Tidy m.2) : Tidy (.obj members)

/-- The parts of a value: itself, and the parts of its items and members. -/
inductive Part (whole : Json) : Json → Prop
  | self : Part whole whole
  | item {items : List Json} {v : Json} (within : Part whole (.arr items)) (mem : v ∈ items) :
      Part whole v
  | member {members : List (Text × Json)} {m : Text × Json} (within : Part whole (.obj members))
      (mem : m ∈ members) : Part whole m.2

/-- Every floating point number in a value comes back from its text. -/
def Exact (v : Json) : Prop := ∀ x, v.Part (.real x) → ReadsBack x

theorem Part.trans {u v w : Json} (h : u.Part v) (h' : v.Part w) : u.Part w := by
  induction h' with
  | self => exact h
  | item _ mem ih => exact .item ih mem
  | member _ mem ih => exact .member ih mem

theorem Exact.part {v w : Json} (h : v.Exact) (part : v.Part w) : w.Exact :=
  fun x hx => h x (part.trans hx)

theorem Tidy.restorable {v : Json} (h : v.Tidy) (exact : v.Exact) : v.Restorable := by
  induction h with
  | null => exact .null
  | bool b => exact .bool b
  | int short => exact .int short
  | real x => exact .real (exact x .self)
  | str joined => exact .str joined
  | arr all ih => exact .arr fun item hi => ih item hi (exact.part (.item .self hi))
  | obj distinct keys values ih =>
    exact .obj distinct keys fun m hm => ih m hm (exact.part (.member .self hm))

/-! ## Members with the last value of each key -/

theorem mem_setMember {key : Text} {value : Json} {members : List (Text × Json)} {m : Text × Json}
    (h : m ∈ setMember key value members) : m = (key, value) ∨ m ∈ members := by
  induction members with
  | nil => exact .inl (List.mem_singleton.mp h)
  | cons n rest ih =>
    obtain ⟨k, v⟩ := n
    rw [setMember] at h
    split at h
    · rename_i same
      rcases List.mem_cons.mp h with rfl | h
      · exact .inl (by rw [same])
      · exact .inr (List.mem_cons_of_mem _ h)
    · rcases List.mem_cons.mp h with rfl | h
      · exact .inr List.mem_cons_self
      · exact (ih h).imp_right (List.mem_cons_of_mem _)

theorem keys_setMember (key : Text) (value : Json) (members : List (Text × Json)) :
    (setMember key value members).map Prod.fst =
      if key ∈ members.map Prod.fst then members.map Prod.fst
      else members.map Prod.fst ++ [key] := by
  induction members with
  | nil => rfl
  | cons n rest ih =>
    obtain ⟨k, v⟩ := n
    rw [setMember]
    by_cases same : k = key
    · simp [same]
    · have other : key ≠ k := fun e => same e.symm
      simp only [if_neg same, List.map_cons, ih, List.mem_cons, other, false_or]
      split <;> rfl

theorem nodup_setMember {key : Text} {members : List (Text × Json)}
    (h : (members.map Prod.fst).Nodup) (value : Json) :
    ((setMember key value members).map Prod.fst).Nodup := by
  rw [keys_setMember]
  split
  · exact h
  · rename_i new
    refine List.nodup_append.mpr ⟨h, List.pairwise_singleton _ _, fun k hk l hl same => new ?_⟩
    rwa [← List.mem_singleton.mp hl, ← same]

theorem mergeMembers_spec (members : List (Text × Json)) :
    ((mergeMembers members).map Prod.fst).Nodup ∧
      ∀ m ∈ mergeMembers members, m ∈ members := by
  have fold (front : List (Text × Json)) (distinct : (front.map Prod.fst).Nodup) :
      ((members.foldl (fun members m => setMember m.1 m.2 members) front).map Prod.fst).Nodup ∧
        ∀ m ∈ members.foldl (fun members m => setMember m.1 m.2 members) front,
          m ∈ front ∨ m ∈ members := by
    induction members generalizing front with
    | nil => exact ⟨distinct, fun m hm => .inl hm⟩
    | cons n rest ih =>
      obtain ⟨nodup, origin⟩ := ih (setMember n.1 n.2 front) (nodup_setMember distinct n.2)
      refine ⟨nodup, fun m hm => ?_⟩
      rcases origin m hm with hm | hm
      · rcases mem_setMember hm with rfl | hm
        · exact .inr List.mem_cons_self
        · exact .inl hm
      · exact .inr (List.mem_cons_of_mem _ hm)
  obtain ⟨nodup, origin⟩ := fold [] List.nodup_nil
  exact ⟨nodup, fun m hm => (origin m hm).resolve_left List.not_mem_nil⟩

/-! ## Reading -/

theorem tidy_of_readScalar {cs rest : Text} {v : Json} (h : readScalar cs = .ok (v, rest)) :
    v.Tidy ∧ rest <:+ cs := by
  have number {negative : Bool} {cs : Text} (h : readMagnitude negative cs = .ok (v, rest)) :
      v.Tidy ∧ rest <:+ cs := by
    obtain ⟨suffix, ⟨x, rfl⟩ | ⟨i, rfl, short⟩⟩ := readMagnitude_eq_ok h
    · exact ⟨.real x, suffix⟩
    · exact ⟨.int short, suffix⟩
  unfold readScalar at h
  split at h
  · rename_i found
    cases h
    have listed : ∀ row ∈ names, row.2.Tidy := by
      simp only [names, List.forall_mem_cons]
      exact ⟨.null, .bool _, .bool _, .real _, .real _, .real _, List.forall_mem_nil _⟩
    obtain ⟨row, mem, hit⟩ := List.exists_of_findSome?_eq_some found
    obtain ⟨after, strip, he⟩ := Option.map_eq_some_iff.mp hit
    cases he
    exact ⟨listed row mem, ⟨row.1, (Text.stripWord?_eq_some_iff.mp strip).symm⟩⟩
  · split at h
    · exact (number h).imp_right fun suffix => suffix.trans (List.suffix_cons _ _)
    · exact number h

/-- What one call of the reader returns, for a value, for items and for members. -/
structure ReadsTidy (fuel : Nat) : Prop where
  value : ∀ {cs rest : Text} {v : Json}, cs.isEncodable = true →
    readValue fuel cs = .ok (v, rest) → v.Tidy ∧ rest <:+ cs
  items : ∀ {cs rest : Text} {items : List Json}, cs.isEncodable = true →
    readItems fuel cs = .ok (items, rest) → (∀ item ∈ items, item.Tidy) ∧ rest <:+ cs
  members : ∀ {cs rest : Text} {members : List (Text × Json)}, cs.isEncodable = true →
    readMembers fuel cs = .ok (members, rest) →
      (∀ m ∈ members, m.1.Joined ∧ m.2.Tidy) ∧ rest <:+ cs

namespace ReadsTidy

variable {fuel : Nat}

/-- Characters behind the first ones are characters. -/
theorem clean_of_suffix {cs rest : Text} (clean : cs.isEncodable = true) (h : rest <:+ cs) :
    rest.isEncodable = true := Text.isEncodable_of_part clean h.isInfix

theorem skipGap_suffix_cons (c : CodePoint) (cs : Text) : skipGap cs <:+ c :: cs :=
  (suffix_skipGap cs).trans (List.suffix_cons _ _)

theorem suffix_of_skipGap {cs rest : Text} {c : CodePoint} (h : skipGap cs = c :: rest) :
    rest <:+ cs := (List.suffix_cons c rest).trans (h ▸ suffix_skipGap cs)

theorem skipGap_suffix_of_skipGap {cs rest : Text} {c : CodePoint} (h : skipGap cs = c :: rest) :
    skipGap rest <:+ cs := (suffix_skipGap rest).trans (suffix_of_skipGap h)

theorem succ_value (h : ReadsTidy fuel) {cs rest : Text} {v : Json} (clean : cs.isEncodable = true)
    (read : readValue (fuel + 1) cs = .ok (v, rest)) : v.Tidy ∧ rest <:+ cs := by
  rw [readValue.eq_def] at read
  simp only at read
  split at read
  · rename_i quoted
    obtain ⟨⟨t, after⟩, string, he⟩ := exists_of_map_eq_ok read
    cases he
    have behind := List.suffix_cons (CodePoint.scalar '"') quoted
    obtain ⟨joined, suffix⟩ := joined_of_readString (clean_of_suffix clean behind) string
    exact ⟨.str joined, suffix.trans behind⟩
  · rename_i inner
    split at read
    · rename_i gap
      cases read
      exact ⟨.arr (List.forall_mem_nil _),
        (suffix_of_skipGap gap).trans (List.suffix_cons _ _)⟩
    · obtain ⟨⟨items, after⟩, found, he⟩ := exists_of_map_eq_ok read
      cases he
      have behind := skipGap_suffix_cons (.scalar '[') inner
      obtain ⟨tidy, suffix⟩ := h.items (clean_of_suffix clean behind) found
      exact ⟨.arr tidy, suffix.trans behind⟩
  · rename_i inner
    split at read
    · rename_i gap
      cases read
      exact ⟨.obj .nil (List.forall_mem_nil _) (List.forall_mem_nil _),
        (suffix_of_skipGap gap).trans (List.suffix_cons _ _)⟩
    · obtain ⟨⟨members, after⟩, found, he⟩ := exists_of_map_eq_ok read
      cases he
      have behind := skipGap_suffix_cons (.scalar '\x7b') inner
      obtain ⟨tidy, suffix⟩ := h.members (clean_of_suffix clean behind) found
      obtain ⟨distinct, origin⟩ := mergeMembers_spec members
      exact ⟨.obj distinct (fun m hm => (tidy m (origin m hm)).1)
        fun m hm => (tidy m (origin m hm)).2, suffix.trans behind⟩
  · exact tidy_of_readScalar read

theorem succ_items (h : ReadsTidy fuel) {cs rest : Text} {items : List Json}
    (clean : cs.isEncodable = true) (read : readItems (fuel + 1) cs = .ok (items, rest)) :
    (∀ item ∈ items, item.Tidy) ∧ rest <:+ cs := by
  rw [readItems] at read
  split at read
  · cases read
  · rename_i item behind first
    obtain ⟨tidy, suffix⟩ := h.value clean first
    split at read
    · rename_i gap
      cases read
      exact ⟨by simpa using tidy, (suffix_of_skipGap gap).trans suffix⟩
    · rename_i more gap
      obtain ⟨⟨others, after⟩, found, he⟩ := exists_of_map_eq_ok read
      cases he
      have next : skipGap more <:+ cs := (skipGap_suffix_of_skipGap gap).trans suffix
      obtain ⟨all, suffix'⟩ := h.items (clean_of_suffix clean next) found
      exact ⟨List.forall_mem_cons.mpr ⟨tidy, all⟩, suffix'.trans next⟩
    · cases read

theorem succ_members (h : ReadsTidy fuel) {cs rest : Text} {members : List (Text × Json)}
    (clean : cs.isEncodable = true) (read : readMembers (fuel + 1) cs = .ok (members, rest)) :
    (∀ m ∈ members, m.1.Joined ∧ m.2.Tidy) ∧ rest <:+ cs := by
  rw [readMembers.eq_def] at read
  simp only at read
  split at read
  · rename_i quoted
    have inside := List.suffix_cons (CodePoint.scalar '"') quoted
    split at read
    · cases read
    · rename_i key behind string
      obtain ⟨joined, suffix⟩ := joined_of_readString (clean_of_suffix clean inside) string
      split at read
      · rename_i gap
        have start := ((skipGap_suffix_of_skipGap gap).trans suffix).trans inside
        split at read
        · cases read
        · rename_i value behind' found
          obtain ⟨tidy, suffix'⟩ := h.value (clean_of_suffix clean start) found
          split at read
          · rename_i gap'
            cases read
            exact ⟨by simpa using ⟨joined, tidy⟩,
              ((suffix_of_skipGap gap').trans suffix').trans start⟩
          · rename_i gap'
            obtain ⟨⟨others, after⟩, rest', he⟩ := exists_of_map_eq_ok read
            cases he
            have next := ((skipGap_suffix_of_skipGap gap').trans suffix').trans start
            obtain ⟨all, suffix''⟩ := h.members (clean_of_suffix clean next) rest'
            exact ⟨List.forall_mem_cons.mpr ⟨⟨joined, tidy⟩, all⟩, suffix''.trans next⟩
          · cases read
      · cases read
  · cases read

end ReadsTidy

theorem readsTidy (fuel : Nat) : ReadsTidy fuel := by
  induction fuel with
  | zero => exact ⟨nofun, nofun, nofun⟩
  | succ fuel ih => exact ⟨ih.succ_value, ih.succ_items, ih.succ_members⟩

/-- What is read from characters is tidy. -/
theorem tidy_of_read {cs : Text} (clean : cs.isEncodable = true) {v : Json}
    (h : read cs = .ok v) : v.Tidy := by
  unfold read at h
  split at h
  · cases h
  · rename_i found
    split at h
    · cases h
      have gap := Text.isEncodable_of_part clean (suffix_skipGap cs).isInfix
      exact ((readsTidy _).value gap found).1
    · cases h

end Json

end ClassGraph
