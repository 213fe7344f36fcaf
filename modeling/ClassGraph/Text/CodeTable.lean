/-! Sets of characters, written as tables of code point ranges. -/

namespace ClassGraph.Text

/-- A set of code points as a list of ranges; both ends of a range belong to it. -/
abbrev CodeTable := List (Nat × Nat)

def CodeTable.contains (table : CodeTable) (code : Nat) : Bool :=
  table.any fun range => range.1 ≤ code && code ≤ range.2

theorem CodeTable.contains_iff {table : CodeTable} {code : Nat} :
    table.contains code = true ↔ ∃ range ∈ table, range.1 ≤ code ∧ code ≤ range.2 := by
  simp [CodeTable.contains, List.any_eq_true]

end ClassGraph.Text
