import ClassGraph.Decimal.Binary64

/-!
The shortest decimal that reads back as a given binary number: the fewest digits that lie in the
interval of reals rounded to it, and of those the nearest.
-/

namespace ClassGraph.Decimal

/-- A decimal magnitude `digits * 10 ^ exponent`. -/
structure Scientific where
  digits : Nat
  exponent : Int
deriving DecidableEq, Repr

/-- Number of decimal digits of `n`; zero has one. -/
def digitCount (n : Nat) : Nat := (Nat.toDigits 10 n).length

/-- The power of ten of the leading digit of `num / den`, for positive `num`. -/
def leadingExponent (num den : Nat) : Int :=
  if den ≤ num then (digitCount (num / den) : Int) - 1
  else -(digitCount ((den + num - 1) / num - 1) : Int)

/-- The reals that round to `mantissa * 2 ^ exponent`, in quarters of a unit of the last binary
place: from `low` to `high`, ends included when the mantissa is even. Below a power of two the next
number is only half as far away. -/
structure Interval where
  low : Nat
  high : Nat
  closed : Bool

def Dyadic.interval (d : Dyadic) : Interval where
  low := 4 * d.mantissa - (if d.mantissa = 1 <<< fractionBits && d.exponent > -1074 then 1 else 2)
  high := 4 * d.mantissa + 2
  closed := d.mantissa % 2 == 0

/-- Whether `digits * 10 ^ exponent` rounds to the magnitude. -/
def Dyadic.covers (d : Dyadic) (s : Scientific) : Bool :=
  let twos := 1 <<< d.exponent.toNat
  let halves := 4 <<< (-d.exponent).toNat
  let tens := Nat.pow 10 s.exponent.toNat
  let tenths := Nat.pow 10 (-s.exponent).toNat
  let point := s.digits * tens * halves
  let low := d.interval.low * twos * tenths
  let high := d.interval.high * twos * tenths
  if d.interval.closed then low ≤ point && point ≤ high else low < point && point < high

/-- The two neighbours of the magnitude on the grid of multiples of `10 ^ exponent`, the nearer
first; of two equally near ones the even one. -/
def Dyadic.neighbours (d : Dyadic) (exponent : Int) : List Scientific :=
  let (num, den) := d.ratio
  let scaled := num * Nat.pow 10 (-exponent).toNat
  let unit := den * Nat.pow 10 exponent.toNat
  let below := scaled / unit
  let twice := 2 * (scaled % unit)
  let downFirst := twice < unit || (twice == unit && below % 2 == 0)
  if downFirst then [⟨below, exponent⟩, ⟨below + 1, exponent⟩]
  else [⟨below + 1, exponent⟩, ⟨below, exponent⟩]

/-- Tries grids of one digit, two digits and so on; the first that has a covered neighbour wins. -/
def Dyadic.search (d : Dyadic) (leading : Int) : (left tried : Nat) → Scientific
  | 0, tried => ⟨0, leading - tried⟩
  | left + 1, tried =>
    match (d.neighbours (leading - tried)).find? d.covers with
    | some s => s
    | none => d.search leading left (tried + 1)

/-- Moves trailing zeros of the digits into the exponent. -/
def Scientific.trim (s : Scientific) : Scientific :=
  if h : s.digits ≠ 0 ∧ s.digits % 10 = 0 then Scientific.trim ⟨s.digits / 10, s.exponent + 1⟩
  else s
termination_by s.digits
decreasing_by exact Nat.div_lt_self (Nat.pos_of_ne_zero h.1) (by decide)

/-- The shortest decimal of a magnitude; seventeen digits always suffice. -/
def Dyadic.shortest (d : Dyadic) : Scientific :=
  if d.mantissa = 0 then ⟨0, 0⟩
  else
    let (num, den) := d.ratio
    (d.search (leadingExponent num den) 17 0).trim

end ClassGraph.Decimal
