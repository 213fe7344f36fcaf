import ClassGraph.Text.Blank
import ClassGraph.Text.Word

/-!
Whole numbers as they are typed: blanks around the number, a sign, digits of any script, and single
underscores between digits.
-/

namespace ClassGraph.Text

/-- Blanks around a number; the ASCII separators are not among them. -/
def isNumberBlank (c : Char) : Bool :=
  if c.toNat < 0x80 then c == ' ' || (0x09 ≤ c.toNat && c.toNat ≤ 0x0d) else isBlank c

/-- The digits of a number, most significant first. `afterDigit` says whether a digit stands just
before, so that an underscore may follow. -/
def readDigits? (afterDigit : Bool) : List Char → Option (List Nat)
  | [] => if afterDigit then some [] else none
  | '_' :: rest => if afterDigit then readDigits? false rest else none
  | c :: rest =>
    match digitValue? c with
    | none => none
    | some d => (readDigits? true rest).map (d :: ·)

/-- At most this many digits are read. -/
def maxIntegerDigits : Nat := 4300

def readNatural? (cs : List Char) : Option Nat :=
  match readDigits? false cs with
  | none => none
  | some digits =>
    if maxIntegerDigits < digits.length then none
    else some (digits.foldl (fun value d => 10 * value + d) 0)

def readInt? (s : String) : Option Int :=
  let front := s.toList.dropWhile isNumberBlank
  match (front.reverse.dropWhile isNumberBlank).reverse with
  | '-' :: rest => (readNatural? rest).map fun n => -(n : Int)
  | '+' :: rest => (readNatural? rest).map fun n => (n : Int)
  | cs => (readNatural? cs).map fun n => (n : Int)

/-- Whether a text looks like a negative number: a minus sign and digits, with a point among or
before the digits or without; a line feed may end it. -/
def looksNegative (s : String) : Bool :=
  let isDigit := fun c => (digitValue? c).isSome
  let digitsOnly := fun cs => !cs.isEmpty && cs.all isDigit
  let number := fun cs =>
    digitsOnly cs ||
      match cs.dropWhile isDigit with
      | '.' :: rest => digitsOnly rest
      | _ => false
  match s.toList with
  | '-' :: rest => number rest || (rest.getLast? == some '\n' && number rest.dropLast)
  | _ => false

end ClassGraph.Text
