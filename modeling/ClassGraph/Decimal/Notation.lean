import ClassGraph.Decimal.Shortest

/-!
How a floating point number is written: positionally, or with an exponent when the leading digit
stands far from the point.
-/

namespace ClassGraph.Decimal

structure Style where
  /-- Leading exponents from here on are written positionally, … -/
  positionalFrom : Int
  /-- … up to this one. -/
  positionalTo : Int
  exponentDigits : Nat
  /-- The texts of infinity and of a result that is not a number. -/
  infinity : String
  notANumber : String

/-- Numbers from `0.0001` to below `10 ^ 16` are positional and keep one digit after the point;
exponents are signed and have two digits or more. -/
def plainStyle : Style := ⟨-4, 15, 2, "inf", "nan"⟩

/-- Digits of `n` with leading zeros up to a width. -/
def padded (width n : Nat) : List Char :=
  let digits := Nat.toDigits 10 n
  List.replicate (width - digits.length) '0' ++ digits

/-- Positional digits, at least one on each side of the point. -/
def positional (digits : List Char) (leading : Int) : List Char :=
  if leading < 0 then
    '0' :: '.' :: List.replicate ((-leading).toNat - 1) '0' ++ digits
  else
    let places := leading.toNat + 1
    let whole := digits.take places ++ List.replicate (places - digits.length) '0'
    let rest := digits.drop places
    whole ++ '.' :: (if rest.isEmpty then ['0'] else rest)

/-- The leading digit, the others after a point if there are any, and the exponent. -/
def exponential (style : Style) (digits : List Char) (leading : Int) : List Char :=
  let mark := if leading < 0 then '-' else '+'
  let tail := 'e' :: mark :: padded style.exponentDigits leading.natAbs
  match digits with
  | [] => tail
  | [d] => d :: tail
  | d :: rest => d :: '.' :: rest ++ tail

def Scientific.write (style : Style) (s : Scientific) : List Char :=
  let digits := Nat.toDigits 10 s.digits
  let leading := s.exponent + digits.length - 1
  if style.positionalFrom ≤ leading && leading ≤ style.positionalTo then positional digits leading
  else exponential style digits leading

def write64 (style : Style) (x : Float) : String :=
  match reading64 x with
  | .notANumber => style.notANumber
  | .infinite negative => if negative then "-" ++ style.infinity else style.infinity
  | .finite negative magnitude =>
    let digits := magnitude.shortest.write style
    String.ofList (if negative then '-' :: digits else digits)

end ClassGraph.Decimal
