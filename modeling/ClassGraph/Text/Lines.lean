import ClassGraph.Text.CodePoint

/-! Line ends: a carriage return, alone or before a line feed, ends a line like a line feed. -/

namespace ClassGraph.Text

def unifyLineEnds : Text → Text
  | .scalar '\r' :: .scalar '\n' :: rest => '\n' :: unifyLineEnds rest
  | c :: rest => (if c = '\r' then '\n' else c) :: unifyLineEnds rest
  | [] => []

theorem unifyLineEnds_of_not_mem {t : Text} (h : .scalar '\r' ∉ t) : unifyLineEnds t = t := by
  induction t with
  | nil => rfl
  | cons c rest ih =>
    have hc : c ≠ .scalar '\r' := fun e => h (e ▸ List.mem_cons_self)
    have hr : .scalar '\r' ∉ rest := fun m => h (List.mem_cons_of_mem _ m)
    unfold unifyLineEnds
    split
    · simp_all
    · simp_all
    · simp_all

end ClassGraph.Text
