import ClassGraph.Proofs.Json.Rereading

/-! # Whole numbers that are too long to be read

The reader has two faults. A text that is no JSON value is malformed; a whole
number of more digits than the bound stops the reader with a fault of its own.
The second fault arises only where that many digits stand side by side, at
whatever depth the number is met.
-/

namespace ClassGraph.Json

/-- More digits than a whole number may have stand side by side. -/
def Overlong (cs : Text) : Prop := ∃ digits, digits <:+: cs ∧
  (∀ c ∈ digits, c.satisfies Char.isDigit = true) ∧ maxDigits < digits.length

theorem Overlong.of_suffix {cs rest : Text} (h : Overlong rest) (suffix : rest <:+ cs) :
    Overlong cs := by
  obtain ⟨digits, part, all, long⟩ := h
  exact ⟨digits, part.trans suffix.isInfix, all, long⟩

theorem eq_error_of_map {ε α β : Type} {f : α → β} {r : Except ε α} {e : ε}
    (h : r.map f = .error e) : r = .error e := by
  cases r with
  | error e' => exact congrArg _ (Except.error.inj h)
  | ok a => cases h

/-- A string is only ever malformed. -/
theorem readString_ne_tooLong (cs : Text) : readString cs ≠ .error .numberTooLong := by
  have malformed {α : Type} : (.error .malformed : Except Fault α) ≠ .error .numberTooLong := by
    simp
  fun_induction readString cs with
  | case1 => exact malformed
  | case2 => simp
  | case3 => exact malformed
  | case4 a b c d rest unit value _ ih => exact fun h => ih (eq_error_of_map h)
  | case5 => exact malformed
  | case6 c rest _ d short ih => exact fun h => ih (eq_error_of_map h)
  | case7 => exact malformed
  | case8 c rest _ _ _ shown ih => exact fun h => ih (eq_error_of_map h)

theorem append_of_readWhole {cs digits rest : Text} (h : readWhole cs = some (digits, rest)) :
    digits ++ rest = cs := by
  unfold readWhole at h
  split at h
  · cases h
    rfl
  · split at h
    · cases h
    · rename_i span
      cases h
      rw [spanDigits, List.span_eq_takeWhile_dropWhile] at span
      cases span
      exact List.takeWhile_append_dropWhile

theorem overlong_of_readMagnitude {negative : Bool} {cs : Text}
    (h : readMagnitude negative cs = .error .numberTooLong) : Overlong cs := by
  unfold readMagnitude at h
  split at h
  · cases h
  · rename_i whole behind found
    simp only at h
    split at h
    · split at h
      · rename_i long
        have front : whole <+: cs := ⟨behind, append_of_readWhole found⟩
        exact ⟨whole, front.isInfix, (of_readWhole found).2, long⟩
      · cases h
    · cases h

theorem overlong_of_readScalar {cs : Text} (h : readScalar cs = .error .numberTooLong) :
    Overlong cs := by
  unfold readScalar at h
  split at h
  · cases h
  · split at h
    · exact (overlong_of_readMagnitude h).of_suffix (List.suffix_cons _ _)
    · exact overlong_of_readMagnitude h

/-- What one call of the reader stumbles over, for a value, for items and for members. -/
structure FaultsOverlong (fuel : Nat) : Prop where
  value : ∀ {cs : Text}, cs.isEncodable = true →
    readValue fuel cs = .error .numberTooLong → Overlong cs
  items : ∀ {cs : Text}, cs.isEncodable = true →
    readItems fuel cs = .error .numberTooLong → Overlong cs
  members : ∀ {cs : Text}, cs.isEncodable = true →
    readMembers fuel cs = .error .numberTooLong → Overlong cs

namespace FaultsOverlong

open ReadsTidy (clean_of_suffix skipGap_suffix_cons skipGap_suffix_of_skipGap)

variable {fuel : Nat}

theorem succ_value (h : FaultsOverlong fuel) {cs : Text} (clean : cs.isEncodable = true)
    (fault : readValue (fuel + 1) cs = .error .numberTooLong) : Overlong cs := by
  rw [readValue.eq_def] at fault
  simp only at fault
  split at fault
  · exact absurd (eq_error_of_map fault) (readString_ne_tooLong _)
  · rename_i inner
    split at fault
    · cases fault
    · have behind := skipGap_suffix_cons (.scalar '[') inner
      exact (h.items (clean_of_suffix clean behind) (eq_error_of_map fault)).of_suffix behind
  · rename_i inner
    split at fault
    · cases fault
    · have behind := skipGap_suffix_cons (.scalar '\x7b') inner
      exact (h.members (clean_of_suffix clean behind) (eq_error_of_map fault)).of_suffix behind
  · exact overlong_of_readScalar fault

theorem succ_items (h : FaultsOverlong fuel) {cs : Text} (clean : cs.isEncodable = true)
    (fault : readItems (fuel + 1) cs = .error .numberTooLong) : Overlong cs := by
  rw [readItems] at fault
  split at fault
  · rename_i first
    cases fault
    exact h.value clean first
  · rename_i item behind first
    have suffix := ((readsTidy fuel).value clean first).2
    split at fault
    · cases fault
    · rename_i more gap
      have next : skipGap more <:+ cs := (skipGap_suffix_of_skipGap gap).trans suffix
      exact (h.items (clean_of_suffix clean next) (eq_error_of_map fault)).of_suffix next
    · cases fault

theorem succ_members (h : FaultsOverlong fuel) {cs : Text} (clean : cs.isEncodable = true)
    (fault : readMembers (fuel + 1) cs = .error .numberTooLong) : Overlong cs := by
  rw [readMembers.eq_def] at fault
  simp only at fault
  split at fault
  · rename_i quoted
    have inside := List.suffix_cons (CodePoint.scalar '"') quoted
    split at fault
    · rename_i string
      cases fault
      exact absurd string (readString_ne_tooLong _)
    · rename_i key behind string
      have suffix := (joined_of_readString (clean_of_suffix clean inside) string).2
      split at fault
      · rename_i gap
        have start := ((skipGap_suffix_of_skipGap gap).trans suffix).trans inside
        split at fault
        · rename_i first
          cases fault
          exact (h.value (clean_of_suffix clean start) first).of_suffix start
        · rename_i value behind' found
          have suffix' := ((readsTidy fuel).value (clean_of_suffix clean start) found).2
          split at fault
          · cases fault
          · rename_i gap'
            have next := ((skipGap_suffix_of_skipGap gap').trans suffix').trans start
            exact (h.members (clean_of_suffix clean next) (eq_error_of_map fault)).of_suffix next
          · cases fault
      · cases fault
  · cases fault

end FaultsOverlong

theorem faultsOverlong (fuel : Nat) : FaultsOverlong fuel := by
  induction fuel with
  | zero => exact ⟨nofun, nofun, nofun⟩
  | succ fuel ih => exact ⟨ih.succ_value, ih.succ_items, ih.succ_members⟩

/-- A text of characters without so many digits side by side is a value or malformed. -/
theorem overlong_of_read {cs : Text} (clean : cs.isEncodable = true)
    (h : read cs = .error .numberTooLong) : Overlong cs := by
  unfold read at h
  split at h
  · rename_i found
    cases h
    have gap := suffix_skipGap cs
    exact ((faultsOverlong _).value (ReadsTidy.clean_of_suffix clean gap) found).of_suffix gap
  · split at h <;> cases h

/-- A whole number of too many digits is not read. -/
theorem read_decimal_of_long {n : Nat} (long : maxDigits < (decimal n).length) :
    read (decimal n) = .error .numberTooLong := by
  obtain ⟨d, ds, digits, other⟩ := exists_decimal_eq_cons n
  have front (c : Char) (hc : c.isDigit = false) : d ≠ c := (other c hc).symm
  have shown : skipGap (decimal n) = decimal n := by
    simp [digits, skipGap, isGap, front]
  have scalar (fuel : Nat) : readValue (fuel + 1) (decimal n) = readScalar (decimal n) := by
    simp [digits, readValue, front]
  have unsigned : readScalar (decimal n) = readMagnitude false (decimal n) :=
    readScalar_unsigned (readName?_decimal n).1 (by simp [digits, front])
  have fault : readMagnitude false (decimal n) = .error .numberTooLong := by
    simp [readMagnitude, readWhole_decimal, readFraction, readExponent, long]
  rw [read, shown, scalar, unsigned, fault]

end ClassGraph.Json
