import ClassGraph.Json.Basic
import ClassGraph.Text.Hex
import ClassGraph.Text.Search

/-!
Reading JSON text. The three number names `NaN`, `Infinity` and `-Infinity` are read as well, and
of a repeated key the last value counts.
-/

namespace ClassGraph.Json

/-- Why a text cannot be read. -/
inductive Fault where
  | malformed
  | numberTooLong
deriving DecidableEq, Repr

def isGap (c : CodePoint) : Bool := c == ' ' || c == '\t' || c == '\n' || c == '\r'

def skipGap (cs : Text) : Text := cs.dropWhile isGap

/-- The characters that a backslash and one letter stand for. -/
def shortEscape? (c : CodePoint) : Option CodePoint :=
  if c = '"' || c = '\\' || c = '/' then some c
  else if c = 'b' then some '\x08'
  else if c = 'f' then some '\x0c'
  else if c = 'n' then some '\n'
  else if c = 'r' then some '\r'
  else if c = 't' then some '\t'
  else none

/-- The unit that closes a surrogate pair, if it follows as an escape. -/
def closingUnit? : Text → Option (Nat × Text)
  | .scalar '\\' :: .scalar 'u' :: a :: b :: c :: d :: rest =>
    match Text.readHex? [a, b, c, d] with
    | some unit => if CodePoint.closesPair unit then some (unit, rest) else none
    | none => none
  | _ => none

theorem length_closingUnit {cs rest : Text} {unit : Nat}
    (h : closingUnit? cs = some (unit, rest)) : rest.length < cs.length := by
  unfold closingUnit? at h
  split at h
  · split at h
    · split at h
      · simp only [Option.some.injEq, Prod.mk.injEq] at h
        obtain ⟨_, rfl⟩ := h
        simp only [List.length_cons]
        omega
      · simp at h
    · simp at h
  · simp at h

/-- What an escaped unit stands for, and what follows: two units that make up a pair stand for one
character, any other unit for the code point of its number. -/
def resolveUnit (unit : Nat) (rest : Text) : CodePoint × Text :=
  if CodePoint.opensPair unit then
    match closingUnit? rest with
    | some (low, rest) => (.ofPair unit low, rest)
    | none => (.ofNat unit, rest)
  else (.ofNat unit, rest)

theorem length_resolveUnit (unit : Nat) (rest : Text) :
    (resolveUnit unit rest).2.length ≤ rest.length := by
  unfold resolveUnit
  split
  · split
    · rename_i low rest' h
      exact Nat.le_of_lt (length_closingUnit h)
    · exact Nat.le_refl _
  · exact Nat.le_refl _

/-- A string behind its opening quotation mark, and what follows the closing one. Control
characters have to be escaped. -/
def readString (cs : Text) : Except Fault (Text × Text) :=
  match cs with
  | [] => .error .malformed
  | .scalar '"' :: rest => .ok ([], rest)
  | .scalar '\\' :: .scalar 'u' :: a :: b :: c :: d :: rest =>
    match Text.readHex? [a, b, c, d] with
    | none => .error .malformed
    | some unit =>
      have := length_resolveUnit unit rest
      (readString (resolveUnit unit rest).2).map fun (text, after) =>
        ((resolveUnit unit rest).1 :: text, after)
  | .scalar '\\' :: c :: rest =>
    match shortEscape? c with
    | none => .error .malformed
    | some d => (readString rest).map fun (text, after) => (d :: text, after)
  | c :: rest =>
    if c.code < 0x20 || c = '\\' then .error .malformed
    else (readString rest).map fun (text, after) => (c :: text, after)
termination_by cs.length
decreasing_by all_goals simp_all <;> omega

def spanDigits (cs : Text) : Text × Text := cs.span (·.satisfies Char.isDigit)

def digitsValue (digits : Text) : Nat :=
  digits.foldl (fun value c => 10 * value + (c.code - '0'.toNat)) 0

/-- The whole part of a number: a zero alone, or digits that do not begin with zero. -/
def readWhole : Text → Option (Text × Text)
  | .scalar '0' :: rest => some ("0", rest)
  | cs =>
    match spanDigits cs with
    | ([], _) => none
    | (digits, rest) => some (digits, rest)

/-- The digits after a point; a point without digits is left alone. -/
def readFraction : Text → Text × Text
  | .scalar '.' :: cs =>
    match spanDigits cs with
    | ([], _) => ([], '.' :: cs)
    | (digits, rest) => (digits, rest)
  | cs => ([], cs)

def readExponentDigits : Text → Option (Int × Text)
  | .scalar '-' :: cs =>
    match spanDigits cs with
    | ([], _) => none
    | (digits, rest) => some (-(digitsValue digits : Int), rest)
  | cs =>
    match spanDigits (match cs with | .scalar '+' :: r => r | _ => cs) with
    | ([], _) => none
    | (digits, rest) => some (digitsValue digits, rest)

/-- An exponent, if one follows. -/
def readExponent (cs : Text) : Option Int × Text :=
  match cs with
  | c :: rest =>
    if c = 'e' || c = 'E' then
      match readExponentDigits rest with
      | some (exponent, after) => (some exponent, after)
      | none => (none, cs)
    else (none, cs)
  | [] => (none, [])

def maxDigits : Nat := 4300

/-- A number without its sign. With a fraction or an exponent it is a floating point number. -/
def readMagnitude (negative : Bool) (cs : Text) : Except Fault (Json × Text) :=
  match readWhole cs with
  | none => .error .malformed
  | some (whole, rest) =>
    let (fraction, rest) := readFraction rest
    let (exponent, rest) := readExponent rest
    if fraction.isEmpty && exponent.isNone then
      if maxDigits < whole.length then .error .numberTooLong
      else
        let value : Int := digitsValue whole
        .ok (.int (if negative then -value else value), rest)
    else
      let value := Decimal.nearest64 (digitsValue (whole ++ fraction))
        (exponent.getD 0 - fraction.length)
      .ok (.real (if negative then -value else value), rest)

def infinity : Float := Float.ofBits 0x7ff0000000000000

def names : List (Text × Json) :=
  [("null", .null), ("true", .bool true), ("false", .bool false),
   ("NaN", .real (Float.ofBits 0x7ff8000000000000)), ("Infinity", .real infinity),
   ("-Infinity", .real (-infinity))]

/-- A named value, if one of the names follows. -/
def readName? (cs : Text) : Option (Json × Text) :=
  names.findSome? fun (name, value) =>
    (Text.stripWord? name cs).map fun rest => (value, rest)

/-- A value that is neither text, array nor object. -/
def readScalar (cs : Text) : Except Fault (Json × Text) :=
  match readName? cs with
  | some found => .ok found
  | none =>
    match cs with
    | .scalar '-' :: rest => readMagnitude true rest
    | _ => readMagnitude false cs

mutual

/-- One value at the front, and what follows it. `fuel` bounds the calls below this one. -/
def readValue : (fuel : Nat) → Text → Except Fault (Json × Text)
  | 0, _ => .error .malformed
  | fuel + 1, cs =>
    match cs with
    | .scalar '"' :: rest => (readString rest).map fun (text, after) => (.str text, after)
    | .scalar '[' :: rest =>
      match skipGap rest with
      | .scalar ']' :: after => .ok (.arr [], after)
      | items => (readItems fuel items).map fun (items, after) => (.arr items, after)
    | .scalar '\x7b' :: rest =>
      match skipGap rest with
      | .scalar '\x7d' :: after => .ok (.obj [], after)
      | members =>
        (readMembers fuel members).map fun (members, after) => (.obj (mergeMembers members), after)
    | _ => readScalar cs

/-- The items of an array up to its end; there is at least one. -/
def readItems : (fuel : Nat) → Text → Except Fault (List Json × Text)
  | 0, _ => .error .malformed
  | fuel + 1, cs =>
    match readValue fuel cs with
    | .error fault => .error fault
    | .ok (item, rest) =>
      match skipGap rest with
      | .scalar ']' :: after => .ok ([item], after)
      | .scalar ',' :: more =>
        (readItems fuel (skipGap more)).map fun (items, after) => (item :: items, after)
      | _ => .error .malformed

/-- The members of an object up to its end; there is at least one. -/
def readMembers : (fuel : Nat) → Text → Except Fault (List (Text × Json) × Text)
  | 0, _ => .error .malformed
  | fuel + 1, cs =>
    match cs with
    | .scalar '"' :: quoted =>
      match readString quoted with
      | .error fault => .error fault
      | .ok (key, rest) =>
        match skipGap rest with
        | .scalar ':' :: rest =>
          match readValue fuel (skipGap rest) with
          | .error fault => .error fault
          | .ok (value, rest) =>
            let member := (key, value)
            match skipGap rest with
            | .scalar '\x7d' :: after => .ok ([member], after)
            | .scalar ',' :: more =>
              (readMembers fuel (skipGap more)).map fun (members, after) =>
                (member :: members, after)
            | _ => .error .malformed
        | _ => .error .malformed
    | _ => .error .malformed

end

/-- Reads a whole text as one value. Each character costs at most two calls. -/
def read (cs : Text) : Except Fault Json :=
  match readValue (2 * cs.length + 2) (skipGap cs) with
  | .error fault => .error fault
  | .ok (value, rest) => if (skipGap rest).isEmpty then .ok value else .error .malformed

end ClassGraph.Json
