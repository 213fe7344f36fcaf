/-!
Places in a list. They are counted from its front, the first being zero, or from its end, the last
being minus one.
-/

namespace ClassGraph

/-- Why a place holds no item. -/
inductive PlaceError where
  | outOfRange
  /-- The number of the place does not fit into a machine word. -/
  | beyondWord
deriving DecidableEq, Repr

def PlaceError.message : PlaceError → String
  | .outOfRange => "list index out of range"
  | .beyondWord => "cannot fit 'int' into an index-sized integer"

/-- Whether a number fits into a signed machine word of 64 bits. -/
def fitsWord (place : Int) : Bool := -0x8000000000000000 ≤ place && place < 0x8000000000000000

def itemAt {α : Type} (items : List α) (place : Int) : Except PlaceError α :=
  if fitsWord place then
    let index := if place < 0 then place + items.length else place
    if index < 0 then .error .outOfRange
    else
      match items[index.toNat]? with
      | some item => .ok item
      | none => .error .outOfRange
  else .error .beyondWord

theorem itemAt_natCast {α : Type} {items : List α} {n : Nat} (h : n < items.length)
    (hw : n < 0x8000000000000000) : itemAt items n = .ok items[n] := by
  have fits : fitsWord n = true := by
    simp only [fitsWord, Bool.and_eq_true, decide_eq_true_eq]
    omega
  have front : ¬ (n : Int) < 0 := by omega
  simp [itemAt, fits, front, h]

end ClassGraph
