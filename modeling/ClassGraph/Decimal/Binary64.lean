/-!
Binary floating point numbers of 64 bits as exact numbers: a finite one is a sign and a natural
number times a power of two.
-/

namespace ClassGraph.Decimal

/-- The magnitude `mantissa * 2 ^ exponent` of a finite number. -/
structure Dyadic where
  mantissa : Nat
  exponent : Int
deriving DecidableEq, Repr

inductive Reading64 where
  | finite (negative : Bool) (magnitude : Dyadic)
  | infinite (negative : Bool)
  | notANumber
deriving DecidableEq, Repr

/-- The fraction field holds the low 52 bits; a normal number has one more bit above them. -/
def fractionBits : Nat := 52

/-- Reads the sign, exponent and fraction fields. -/
def reading64 (x : Float) : Reading64 :=
  let bits := x.toBits.toNat
  let negative := bits >>> 63 == 1
  let field : Nat := (bits >>> fractionBits) % 0x800
  let fraction : Nat := bits % (1 <<< fractionBits)
  if field = 2047 then
    if fraction = 0 then .infinite negative else .notANumber
  else if field = 0 then .finite negative ⟨fraction, -1074⟩
  else .finite negative ⟨fraction + (1 <<< fractionBits), (field : Int) - 1075⟩

/-- Numerator and denominator of a magnitude; one of the two powers of two is one. -/
def Dyadic.ratio (d : Dyadic) : Nat × Nat :=
  (d.mantissa <<< d.exponent.toNat, 1 <<< (-d.exponent).toNat)

/-- Whether a number is exactly the integer `i`. -/
def Reading64.isInt (r : Reading64) (i : Int) : Bool :=
  match r with
  | .finite negative magnitude =>
    let (num, den) := magnitude.ratio
    num == i.natAbs * den && (i == 0 || negative == decide (i < 0))
  | _ => false

def Reading64.isZero (r : Reading64) : Bool := r.isInt 0

/-- The number nearest to `mantissa * 10 ^ exponent`. A decimal exponent so large or so small that
the result is infinite or zero in any case is not expanded. -/
def nearest64 (mantissa : Nat) (exponent : Int) : Float :=
  if mantissa = 0 then 0.0
  else
    let magnitude := ((Nat.toDigits 10 mantissa).length : Int) + exponent
    if magnitude > 400 then Float.ofBits 0x7ff0000000000000
    else if magnitude < -400 then 0.0
    else Float.ofScientific mantissa (decide (exponent < 0)) exponent.natAbs

end ClassGraph.Decimal
