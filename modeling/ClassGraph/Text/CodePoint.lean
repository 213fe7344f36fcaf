/-!
Texts as sequences of code points. JSON can name one half of a surrogate pair without the other,
which is no character; a text keeps it, so that whatever is read can be written again.
-/

namespace ClassGraph

/-- A number of the Unicode code space: that of a character, or one of the surrogates, which stand
for a character only in pairs. -/
inductive CodePoint where
  | scalar (c : Char)
  | surrogate (index : Fin 0x800)
deriving DecidableEq, Repr, Inhabited

namespace CodePoint

instance : Coe Char CodePoint := ⟨scalar⟩

def code : CodePoint → Nat
  | scalar c => c.toNat
  | surrogate index => 0xd800 + index

/-- The code point of a number; numbers above the code space have none. -/
def ofNat? (n : Nat) : Option CodePoint :=
  if h : n.isValidChar then some (.scalar (Char.ofNatAux n h))
  else if h : 0xd800 ≤ n ∧ n < 0xe000 then some (.surrogate ⟨n - 0xd800, by omega⟩)
  else none

theorem code_of_ofNat? {n : Nat} {p : CodePoint} (h : ofNat? n = some p) : p.code = n := by
  unfold ofNat? at h
  by_cases hc : n.isValidChar
  · rw [dif_pos hc] at h
    cases h; rfl
  · rw [dif_neg hc] at h
    by_cases hs : 0xd800 ≤ n ∧ n < 0xe000
    · rw [dif_pos hs] at h
      cases h
      show 0xd800 + (n - 0xd800) = n; omega
    · rw [dif_neg hs] at h
      cases h

/-- The code point of a number of the code space; the replacement character for another number. -/
def ofNat (n : Nat) : CodePoint := (ofNat? n).getD '\ufffd'

/-- Whether a unit of sixteen bits opens a surrogate pair. -/
def opensPair (unit : Nat) : Bool := 0xd800 ≤ unit && unit < 0xdc00

/-- Whether a unit of sixteen bits closes a surrogate pair. -/
def closesPair (unit : Nat) : Bool := 0xdc00 ≤ unit && unit < 0xe000

def ofPair (high low : Nat) : CodePoint :=
  ofNat (0x10000 + (high - 0xd800) * 0x400 + (low - 0xdc00))

/-- The character, if the code point is one. -/
def char? : CodePoint → Option Char
  | scalar c => some c
  | surrogate _ => none

/-- Whether the code point is a character with a property. -/
def satisfies (p : Char → Bool) : CodePoint → Bool
  | scalar c => p c
  | surrogate _ => false

def isSurrogate : CodePoint → Bool
  | scalar _ => false
  | surrogate _ => true

end CodePoint

abbrev Text := List CodePoint

namespace Text

def ofString (s : String) : Text := s.toList.map .scalar

instance : Coe String Text := ⟨ofString⟩

def toString? (t : Text) : Option String := (t.mapM CodePoint.char?).map String.ofList

theorem mapM_char?_scalar (cs : List Char) :
    (cs.map CodePoint.scalar).mapM CodePoint.char? = some cs := by
  induction cs with
  | nil => rfl
  | cons c rest ih => simp [List.mapM_cons, CodePoint.char?, ih]

@[simp]
theorem toString?_ofString (s : String) : (ofString s).toString? = some s := by
  rw [toString?, ofString, mapM_char?_scalar]
  simp

/-- A string to show for a text: a surrogate appears as the replacement character. -/
def toDisplay (t : Text) : String :=
  String.ofList (t.map fun
    | .scalar c => c
    | .surrogate _ => '\ufffd')

/-- Whether a text can be encoded, which a text with surrogates cannot. -/
def isEncodable (t : Text) : Bool := !t.any CodePoint.isSurrogate

def join (separator : Text) (texts : List Text) : Text := List.intercalate separator texts

end Text

end ClassGraph
