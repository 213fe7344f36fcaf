import ClassGraph.Files.Tree
import ClassGraph.Proofs.Json.Numeral

/-! # What is written is read again

The text of a value is read back as that value, in any layout that breaks lines
and sets off values by blanks only. Three kinds of values do not come back: a
text with two surrogates that make up a pair, a whole number with more digits
than the reader takes, and an object that holds a key twice. Whether a floating
point number comes back is a matter of its digits. `Restorable` leaves these out.
-/

namespace ClassGraph.Json

/-- A floating point number that is read back from what is written for it. -/
def ReadsBack (x : Float) : Prop :=
  readScalar ((Decimal.write64 numberStyle x).toList.map .scalar) = .ok (.real x, [])

/-- A value that comes back from its text. -/
inductive Restorable : Json → Prop
  | null : Restorable .null
  | bool (b : Bool) : Restorable (.bool b)
  | int {i : Int} (short : (Nat.toDigits 10 i.natAbs).length ≤ maxDigits) : Restorable (.int i)
  | real {x : Float} (exact : ReadsBack x) : Restorable (.real x)
  | str {t : Text} (joined : t.Joined) : Restorable (.str t)
  | arr {items : List Json} (all : ∀ item ∈ items, Restorable item) : Restorable (.arr items)
  | obj {members : List (Text × Json)} (distinct : (members.map Prod.fst).Nodup)
      (keys : ∀ m ∈ members, m.1.Joined) (values : ∀ m ∈ members, Restorable m.2) :
      Restorable (.obj members)

/-! ## Members with distinct keys -/

theorem setMember_of_not_mem {key : Text} {members : List (Text × Json)}
    (h : key ∉ members.map Prod.fst) (value : Json) :
    setMember key value members = members ++ [(key, value)] := by
  induction members with
  | nil => rfl
  | cons m rest ih =>
    simp only [List.map_cons, List.mem_cons, not_or] at h
    rw [setMember, if_neg fun e => h.1 e.symm, ih h.2, List.cons_append]

theorem mergeMembers_of_nodup {members : List (Text × Json)}
    (h : (members.map Prod.fst).Nodup) : mergeMembers members = members := by
  have fold (front : List (Text × Json)) (h : ((front ++ members).map Prod.fst).Nodup) :
      members.foldl (fun members m => setMember m.1 m.2 members) front = front ++ members := by
    clear * - h
    induction members generalizing front with
    | nil => simp
    | cons m rest ih =>
      have new : m.1 ∉ front.map Prod.fst := by
        rw [List.map_append, List.map_cons] at h
        exact fun hm => (List.nodup_append.mp h).2.2 _ hm _ List.mem_cons_self rfl
      rw [List.foldl_cons, setMember_of_not_mem new, ih, List.append_assoc]
      · rfl
      · rwa [List.append_assoc]
  exact fold [] h

/-! ## Layouts -/

/-- A layout that puts nothing but blanks between values. -/
structure Layout.Loose (layout : Layout) : Prop where
  lineBreak : ∀ level, ∀ c ∈ layout.lineBreak level, isGap c = true
  colon : ∃ gap : List Char, layout.colon = ':' :: gap ∧ ∀ c ∈ gap, isGap c = true

theorem loose_indented : Layout.indented.Loose where
  lineBreak level c hc := by
    rcases List.mem_cons.mp hc with rfl | hc
    · decide
    · rw [(List.mem_replicate.mp hc).2]
      decide
  colon := ⟨[' '], rfl, List.all_eq_true.mp rfl⟩

theorem skipGap_append {gap : List Char} (h : ∀ c ∈ gap, isGap c = true) (rest : Text) :
    skipGap (gap.map .scalar ++ rest) = skipGap rest := by
  induction gap with
  | nil => rfl
  | cons c gap ih =>
    have first : isGap c = true := h c List.mem_cons_self
    rw [List.map_cons, List.cons_append, skipGap, List.dropWhile_cons_of_pos first]
    exact ih fun d hd => h d (List.mem_cons_of_mem _ hd)

theorem skipGap_cons {c : CodePoint} (h : isGap c = false) (rest : Text) :
    skipGap (c :: rest) = c :: rest := by
  rw [skipGap, List.dropWhile_cons_of_neg (by rw [h]; nofun)]

theorem isNumeral_of_isGap {c : Char} (h : isGap c = true) : isNumeral c = false := by
  simp only [isGap, Bool.or_eq_true, beq_iff_eq, CodePoint.scalar.injEq] at h
  rcases h with ((rfl | rfl) | rfl) | rfl <;> decide

theorem stops_append {gap : List Char} (h : ∀ c ∈ gap, isGap c = true) {c : Char}
    (hc : isNumeral c = false) (rest : Text) : Stops (gap.map .scalar ++ .scalar c :: rest) := by
  cases gap with
  | nil => exact stops_cons hc rest
  | cons d gap => exact stops_cons (isNumeral_of_isGap (h d List.mem_cons_self)) _

/-! ## Where a value begins -/

/-- The characters that a value begins with. -/
def Opens (c : Char) : Prop := isNumeral c = true ∨ c = '"' ∨ c = '[' ∨ c = '\x7b'

theorem Opens.isGap_eq_false {c : Char} (h : Opens c) : isGap c = false := by
  rcases h with h | rfl | rfl | rfl
  · refine Bool.eq_false_iff.mpr fun gap => ?_
    rw [isNumeral_of_isGap gap] at h
    cases h
  · decide
  · decide
  · decide

theorem Opens.ne {c d : Char} (h : Opens c) (hd : isNumeral d = false)
    (other : d ≠ '"' ∧ d ≠ '[' ∧ d ≠ '\x7b') : CodePoint.scalar c ≠ .scalar d := by
  rintro ⟨⟩
  rcases h with h | h | h | h
  · rw [hd] at h; cases h
  · exact other.1 h
  · exact other.2.1 h
  · exact other.2.2 h

variable {layout : Layout}

theorem exists_opens {v : Json} (h : Restorable v) (layout : Layout) (level : Nat) :
    ∃ c cs, writeAt layout level v = c :: cs ∧ Opens c := by
  have numeral {cs : List Char} (all : ∀ c ∈ cs, isNumeral c = true)
      (read : readScalar (cs.map .scalar) = .ok (v, [])) : ∃ c ds, cs = c :: ds ∧ Opens c := by
    cases cs with
    | nil => cases read
    | cons c ds => exact ⟨c, ds, rfl, .inl (all c List.mem_cons_self)⟩
  cases h with
  | null => exact ⟨_, _, rfl, .inl (by decide)⟩
  | bool b => cases b <;> exact ⟨_, _, rfl, .inl (by decide)⟩
  | int short =>
    rw [writeAt]
    exact numeral isNumeral_toString (readScalar_int short)
  | @real x exact =>
    rw [writeAt]
    exact numeral (isNumeral_write64 x) exact
  | str joined => exact ⟨_, _, rfl, .inr (.inl rfl)⟩
  | @arr items all => cases items <;> exact ⟨_, _, rfl, .inr (.inr (.inl rfl))⟩
  | @obj members distinct keys values =>
    cases members <;> exact ⟨_, _, rfl, .inr (.inr (.inr rfl))⟩

/-- What begins with a value begins with no gap. -/
theorem skipGap_writeAt (layout : Layout) {v : Json} (h : Restorable v) (level : Nat)
    (rest : Text) :
    skipGap ((writeAt layout level v).map .scalar ++ rest) =
      (writeAt layout level v).map .scalar ++ rest := by
  obtain ⟨c, cs, written, opens⟩ := exists_opens h layout level
  rw [written]
  exact skipGap_cons opens.isGap_eq_false _

theorem skipGap_writeText (t : Text) (rest : Text) :
    skipGap ((writeText t).map .scalar ++ rest) = (writeText t).map .scalar ++ rest :=
  skipGap_cons (c := .scalar '"') (by decide) _

/-! ## Reading -/

/-- A value is read from its text wherever that stands. The fuel is counted in characters, each of
which costs at most two calls. -/
def Reads (layout : Layout) (v : Json) : Prop := ∀ (level fuel : Nat) (rest : Text), Stops rest →
  2 * (writeAt layout level v).length ≤ fuel →
    readValue fuel ((writeAt layout level v).map .scalar ++ rest) = .ok (v, rest)

/-- What is neither text, array nor object is read by the reader for such values. -/
theorem reads_of_readScalar {v : Json} (numeral : ∀ level, ∀ c ∈ writeAt layout level v,
      isNumeral c = true)
    (read : ∀ level, readScalar ((writeAt layout level v).map .scalar) = .ok (v, [])) :
    Reads layout v := by
  intro level fuel rest stops enough
  have scalar := readScalar_append stops ((writeAt layout level v).map .scalar)
  rw [read level] at scalar
  have all := numeral level
  have some_ := read level
  generalize writeAt layout level v = cs at enough scalar all some_ ⊢
  cases cs with
  | nil => cases some_
  | cons c cs =>
    obtain ⟨fuel, rfl⟩ : ∃ n, fuel = n + 1 :=
      Nat.exists_eq_add_one_of_ne_zero (by rw [List.length_cons] at enough; omega)
    have first := all c List.mem_cons_self
    have ne {d : Char} (hd : isNumeral d = false) : CodePoint.scalar c ≠ .scalar d := by
      rintro ⟨⟩
      rw [hd] at first
      cases first
    have other : readValue (fuel + 1) ((c :: cs).map .scalar ++ rest) =
        readScalar ((c :: cs).map .scalar ++ rest) := by
      rw [List.map_cons, List.cons_append, readValue]
      · exact fun _ he => absurd (List.cons.inj he).1 (ne (by decide))
      · exact fun _ he => absurd (List.cons.inj he).1 (ne (by decide))
      · exact fun _ he => absurd (List.cons.inj he).1 (ne (by decide))
    rw [other, scalar]
    rfl

/-- The items of an array are read up to the bracket behind them. -/
theorem readItems_writeItems (loose : layout.Loose) {item : Json} {items : List Json}
    (restorable : ∀ v ∈ item :: items, Restorable v) (reads : ∀ v ∈ item :: items, Reads layout v)
    (level outer fuel : Nat) (rest : Text)
    (enough : 2 * ((writeAt layout level item).length +
      (writeItems layout level items).length) + 1 ≤ fuel) :
    readItems fuel ((writeAt layout level item).map .scalar ++
        ((writeItems layout level items).map .scalar ++
          ((layout.lineBreak outer).map .scalar ++ .scalar ']' :: rest))) =
      .ok (item :: items, rest) := by
  induction items generalizing item fuel with
  | nil =>
    obtain ⟨fuel, rfl⟩ : ∃ n, fuel = n + 1 := Nat.exists_eq_add_one_of_ne_zero (by omega)
    have first := reads item List.mem_cons_self level fuel
      ((layout.lineBreak outer).map .scalar ++ .scalar ']' :: rest)
      (stops_append (loose.lineBreak outer) (by decide) rest) (by omega)
    rw [writeItems, List.map_nil, List.nil_append, readItems, first]
    simp only [skipGap_append (loose.lineBreak outer), skipGap_cons (c := .scalar ']') (by decide)]
  | cons next items ih =>
    obtain ⟨fuel, rfl⟩ : ∃ n, fuel = n + 1 := Nat.exists_eq_add_one_of_ne_zero (by omega)
    simp only [writeItems, List.length_cons, List.length_append] at enough
    have first := reads item List.mem_cons_self level fuel
    have restorable' : ∀ v ∈ next :: items, Restorable v :=
      fun v hv => restorable v (List.mem_cons_of_mem _ hv)
    have others := ih restorable' (fun v hv => reads v (List.mem_cons_of_mem _ hv)) fuel (by omega)
    have start := skipGap_writeAt layout (restorable next (by simp)) level
    rw [writeItems, readItems]
    simp only [List.map_cons, List.map_append, List.cons_append, List.append_assoc]
    rw [first _ (stops_cons (by decide) _) (by omega)]
    simp only [skipGap_cons (c := .scalar ',') (by decide), skipGap_append (loose.lineBreak level),
      start, others]
    rfl

/-- One member is read up to what stands behind its value, which says whether it is the last. -/
theorem readMembers_member (loose : layout.Loose) {m : Text × Json} (key : m.1.Joined)
    (restorable : Restorable m.2) (reads : Reads layout m.2) (level fuel : Nat) {behind : Text}
    (stops : Stops behind) (enough : 2 * (writeAt layout level m.2).length ≤ fuel) :
    readMembers (fuel + 1) ((writeText m.1).map .scalar ++ (layout.colon.map .scalar ++
        ((writeAt layout level m.2).map .scalar ++ behind))) =
      match skipGap behind with
      | .scalar '\x7d' :: after => .ok ([m], after)
      | .scalar ',' :: more =>
        (readMembers fuel (skipGap more)).map fun (members, after) => (m :: members, after)
      | _ => .error .malformed := by
  obtain ⟨gap, colon, blank⟩ := loose.colon
  rw [map_writeText, List.cons_append, List.append_assoc, List.singleton_append, readMembers,
    readString_escaped key, colon]
  simp only [List.map_cons, List.cons_append, skipGap_cons (c := .scalar ':') (by decide),
    skipGap_append blank, skipGap_writeAt layout restorable]
  rewrite [reads level fuel behind stops enough]
  rfl

/-- The members of an object are read up to the brace behind them. -/
theorem readMembers_writeMembers (loose : layout.Loose) {m : Text × Json}
    {members : List (Text × Json)} (keys : ∀ n ∈ m :: members, n.1.Joined)
    (restorable : ∀ n ∈ m :: members, Restorable n.2)
    (reads : ∀ n ∈ m :: members, Reads layout n.2) (level outer fuel : Nat) (rest : Text)
    (enough : 2 * ((writeAt layout level m.2).length + (writeMembers layout level members).length) +
      1 ≤ fuel) :
    readMembers fuel ((writeText m.1).map .scalar ++ (layout.colon.map .scalar ++
        ((writeAt layout level m.2).map .scalar ++
          ((writeMembers layout level members).map .scalar ++
            ((layout.lineBreak outer).map .scalar ++ .scalar '\x7d' :: rest))))) =
      .ok (m :: members, rest) := by
  have here := readMembers_member loose (keys m List.mem_cons_self)
    (restorable m List.mem_cons_self) (reads m List.mem_cons_self) level
  obtain ⟨fuel, rfl⟩ : ∃ n, fuel = n + 1 := Nat.exists_eq_add_one_of_ne_zero (by omega)
  induction members generalizing m fuel with
  | nil =>
    rw [writeMembers, List.map_nil, List.nil_append,
      here fuel (stops_append (loose.lineBreak outer) (by decide) rest) (by omega)]
    simp only [skipGap_append (loose.lineBreak outer),
      skipGap_cons (c := .scalar '\x7d') (by decide)]
  | cons next members ih =>
    obtain ⟨key, value⟩ := next
    simp only [writeMembers, List.length_cons, List.length_append] at enough
    obtain ⟨fuel, rfl⟩ : ∃ n, fuel = n + 1 := Nat.exists_eq_add_one_of_ne_zero (by omega)
    have others := ih (m := (key, value)) (fun n hn => keys n (List.mem_cons_of_mem _ hn))
      (fun n hn => restorable n (List.mem_cons_of_mem _ hn))
      (fun n hn => reads n (List.mem_cons_of_mem _ hn))
      (readMembers_member loose (keys _ (by simp)) (restorable _ (by simp)) (reads _ (by simp))
        level)
      fuel (by show 2 * ((writeAt layout level value).length + _) + 1 ≤ _; omega)
    rw [writeMembers]
    simp only [List.map_cons, List.map_append, List.cons_append, List.append_assoc]
    rw [here (fuel + 1) (stops_cons (by decide) _) (by omega)]
    simp only [skipGap_cons (c := .scalar ',') (by decide), skipGap_append (loose.lineBreak level),
      skipGap_writeText, others]
    rfl

theorem readValue_items {cs items : Text} (gap : skipGap cs = items)
    (more : ∀ after, items ≠ .scalar ']' :: after) (fuel : Nat) :
    readValue (fuel + 1) (.scalar '[' :: cs) =
      (readItems fuel items).map fun (items, after) => (.arr items, after) := by
  rw [readValue, gap]
  split
  · exact absurd rfl (more _)
  · rfl

theorem readValue_members {cs members : Text} (gap : skipGap cs = members)
    (more : ∀ after, members ≠ .scalar '\x7d' :: after) (fuel : Nat) :
    readValue (fuel + 1) (.scalar '\x7b' :: cs) = (readMembers fuel members).map
      fun (members, after) => (.obj (mergeMembers members), after) := by
  rw [readValue, gap]
  split
  · exact absurd rfl (more _)
  · rfl

theorem reads_str {t : Text} (joined : t.Joined) : Reads layout (.str t) := by
  intro level fuel rest stops enough
  rw [writeAt] at enough ⊢
  obtain ⟨fuel, rfl⟩ : ∃ n, fuel = n + 1 :=
    Nat.exists_eq_add_one_of_ne_zero (by simp [writeText] at enough; omega)
  rw [map_writeText, List.cons_append, List.append_assoc, List.singleton_append, readValue,
    readString_escaped joined]
  rfl

theorem reads_arr (loose : layout.Loose) {items : List Json}
    (restorable : ∀ item ∈ items, Restorable item) (reads : ∀ item ∈ items, Reads layout item) :
    Reads layout (.arr items) := by
  intro level fuel rest stops enough
  cases items with
  | nil =>
    obtain ⟨fuel, rfl⟩ : ∃ n, fuel = n + 1 :=
      Nat.exists_eq_add_one_of_ne_zero (by simp [writeAt] at enough; omega)
    rfl
  | cons item items =>
    simp only [writeAt, List.length_cons, List.length_append] at enough
    obtain ⟨fuel, rfl⟩ : ∃ n, fuel = n + 1 := Nat.exists_eq_add_one_of_ne_zero (by omega)
    have within :=
      readItems_writeItems loose restorable reads (level + 1) level fuel rest (by omega)
    have first := restorable item List.mem_cons_self
    have start := skipGap_writeAt layout first (level + 1)
    obtain ⟨c, cs, written, opens⟩ := exists_opens first layout (level + 1)
    simp only [writeAt, List.map_cons, List.map_append, List.cons_append, List.append_assoc]
    rw [readValue_items ((skipGap_append (loose.lineBreak (level + 1)) _).trans (start _))]
    · rw [List.map_nil, List.nil_append, within]
      rfl
    · rw [written]
      exact fun _ he => opens.ne (by decide) (by decide) (List.cons.inj he).1

theorem reads_obj (loose : layout.Loose) {members : List (Text × Json)}
    (distinct : (members.map Prod.fst).Nodup) (keys : ∀ m ∈ members, m.1.Joined)
    (restorable : ∀ m ∈ members, Restorable m.2) (reads : ∀ m ∈ members, Reads layout m.2) :
    Reads layout (.obj members) := by
  intro level fuel rest stops enough
  cases members with
  | nil =>
    obtain ⟨fuel, rfl⟩ : ∃ n, fuel = n + 1 :=
      Nat.exists_eq_add_one_of_ne_zero (by simp [writeAt] at enough; omega)
    rfl
  | cons m members =>
    obtain ⟨key, value⟩ := m
    simp only [writeAt, List.length_cons, List.length_append] at enough
    obtain ⟨fuel, rfl⟩ : ∃ n, fuel = n + 1 := Nat.exists_eq_add_one_of_ne_zero (by omega)
    have within := readMembers_writeMembers loose keys restorable reads (level + 1) level fuel rest
      (by show 2 * ((writeAt layout _ value).length + _) + 1 ≤ _; omega)
    simp only [writeAt, List.map_cons, List.map_append, List.cons_append, List.append_assoc]
    rw [readValue_members ((skipGap_append (loose.lineBreak (level + 1)) _).trans
      (skipGap_writeText key _))]
    · rw [List.map_nil, List.nil_append, within]
      simp only [Except.map, mergeMembers_of_nodup distinct]
    · exact fun _ he => absurd (List.cons.inj he).1 (by decide)

/-- Every restorable value is read from its text. The induction is on the value: its parts are read
by the reader that has one call less to spend for each of them. -/
theorem reads_of_restorable (loose : layout.Loose) {v : Json} (h : Restorable v) :
    Reads layout v := by
  induction h with
  | null => exact reads_of_readScalar (by simp [writeAt]; decide) fun _ => rfl
  | bool b =>
    cases b
    · exact reads_of_readScalar (by simp [writeAt]; decide) fun _ => rfl
    · exact reads_of_readScalar (by simp [writeAt]; decide) fun _ => rfl
  | int short =>
    refine reads_of_readScalar ?_ ?_
    · simpa only [writeAt] using fun _ => isNumeral_toString
    · simpa only [writeAt] using fun _ => readScalar_int short
  | @real x exact =>
    refine reads_of_readScalar ?_ ?_
    · simpa only [writeAt] using fun _ => isNumeral_write64 x
    · rw [ReadsBack] at exact
      simpa only [writeAt] using fun _ => exact
  | str joined => exact reads_str joined
  | arr all ih => exact reads_arr loose all ih
  | obj distinct keys values ih => exact reads_obj loose distinct keys values ih

/-- A restorable value comes back from its text, in every loose layout. -/
theorem read_write (loose : layout.Loose) {v : Json} (h : Restorable v) :
    read (v.write layout) = .ok v := by
  have text : Text.ofString (v.write layout) = (writeAt layout 0 v).map .scalar := by
    rw [Text.ofString, write, String.toList_ofList]
  have start := skipGap_writeAt layout h 0 []
  have value := reads_of_restorable loose h 0 (2 * (writeAt layout 0 v).length + 2) [] stops_nil
    (by omega)
  rw [List.append_nil] at start value
  rw [read, text, start, List.length_map, value]
  rfl

/-! ## As the content of a file -/

theorem return_not_mem_writeUnit (unit : Nat) : '\r' ∉ writeUnit unit := by
  have digit (n : Nat) : '\r' ≠ Text.hexDigit (n % 16) := by
    have all : ∀ m < 16, '\r' ≠ Text.hexDigit m := by decide
    exact all _ (Nat.mod_lt _ (by decide))
  have digits (width n : Nat) : '\r' ∉ Text.hexDigits width n := by
    induction width generalizing n with
    | zero => exact List.not_mem_nil
    | succ width ih => simp [Text.hexDigits, ih, digit]
  simp [writeUnit, digits]

theorem return_not_mem_writeCodePoint (c : CodePoint) : '\r' ∉ writeCodePoint c := by
  cases c with
  | surrogate index => exact return_not_mem_writeUnit _
  | scalar c =>
    show '\r' ∉ writeChar c
    have spells := spells_writeChar c
    generalize writeChar c = written at spells
    cases spells with
    | @short letter stands =>
      have other : '\r' ≠ letter := by
        rintro rfl
        cases stands
      simp [other]
    | plain quote escape shown =>
      have other : '\r' ≠ c := by
        rintro rfl
        exact absurd shown (by decide)
      simp [other]
    | unit basic => exact return_not_mem_writeUnit _
    | pair beyond => simp [return_not_mem_writeUnit]

theorem return_not_mem_writeText (t : Text) : '\r' ∉ writeText t := by
  simp [writeText, return_not_mem_writeCodePoint]

theorem return_not_mem_of_numeral {cs : List Char} (h : ∀ c ∈ cs, isNumeral c = true) :
    '\r' ∉ cs := fun hm => absurd (h _ hm) (by decide)

theorem return_not_mem_lineBreak (level : Nat) : '\r' ∉ Layout.indented.lineBreak level := by
  simp [Layout.indented]

theorem return_not_mem_colon : '\r' ∉ Layout.indented.colon := by decide

mutual

theorem return_not_mem_writeAt (level : Nat) : ∀ v : Json, '\r' ∉ writeAt Layout.indented level v
  | .null => by simp [writeAt]
  | .bool true => by simp [writeAt]
  | .bool false => by simp [writeAt]
  | .int i => return_not_mem_of_numeral isNumeral_toString
  | .real x => return_not_mem_of_numeral (isNumeral_write64 x)
  | .str t => return_not_mem_writeText t
  | .arr [] => by simp [writeAt]
  | .arr (item :: items) => by
    simp [writeAt, return_not_mem_lineBreak, return_not_mem_writeAt (level + 1) item,
      return_not_mem_writeItems (level + 1) items]
  | .obj [] => by simp [writeAt]
  | .obj ((key, value) :: members) => by
    simp [writeAt, return_not_mem_lineBreak, return_not_mem_colon, return_not_mem_writeText,
      return_not_mem_writeAt (level + 1) value, return_not_mem_writeMembers (level + 1) members]

theorem return_not_mem_writeItems (level : Nat) :
    ∀ items : List Json, '\r' ∉ writeItems Layout.indented level items
  | [] => by simp [writeItems]
  | item :: items => by
    simp [writeItems, return_not_mem_lineBreak, return_not_mem_writeAt level item,
      return_not_mem_writeItems level items]

theorem return_not_mem_writeMembers (level : Nat) :
    ∀ members : List (Text × Json), '\r' ∉ writeMembers Layout.indented level members
  | [] => by simp [writeMembers]
  | (key, value) :: members => by
    simp [writeMembers, return_not_mem_lineBreak, return_not_mem_colon, return_not_mem_writeText,
      return_not_mem_writeAt level value, return_not_mem_writeMembers level members]

end

theorem return_not_mem_pretty (v : Json) : CodePoint.scalar '\r' ∉ Text.ofString v.pretty := by
  rw [Text.ofString, pretty, write, String.toList_ofList]
  intro hm
  exact return_not_mem_writeAt 0 v
    ((List.mem_map_of_injective fun _ _ => CodePoint.scalar.inj).mp hm)

theorem fromUTF8?_toUTF8 (s : String) : String.fromUTF8? s.toUTF8 = some s := by
  have valid : s.toByteArray.IsValidUTF8 := s.isValidUTF8
  exact dif_pos valid

/-- A file with the text of a value decodes to that text: no line end in it is another one. -/
theorem decodeText_pretty (v : Json) :
    decodeText v.pretty.toUTF8 = some (Text.ofString v.pretty) := by
  rw [decodeText, fromUTF8?_toUTF8]
  exact congrArg some (Text.unifyLineEnds_of_not_mem (return_not_mem_pretty v))

end ClassGraph.Json
