/-! Looking for a word in a sequence of characters or code points. -/

namespace ClassGraph.Text

variable {α : Type}

/-- What follows `word`, if the text begins with it. -/
def stripWord? [DecidableEq α] : (word text : List α) → Option (List α)
  | [], text => some text
  | w :: word, c :: text => if w = c then stripWord? word text else none
  | _ :: _, [] => none

theorem stripWord?_eq_some_iff [DecidableEq α] {word text rest : List α} :
    stripWord? word text = some rest ↔ text = word ++ rest := by
  induction word generalizing text with
  | nil => simp [stripWord?, eq_comm]
  | cons w word ih =>
    cases text with
    | nil => simp [stripWord?]
    | cons c text =>
      by_cases h : w = c
      · simp [stripWord?, h, ih]
      · simp [stripWord?, h, eq_comm]

/-- Whether the text begins with `word`. -/
def startsWith [DecidableEq α] (word text : List α) : Bool := (stripWord? word text).isSome

/-- Cuts the text at the first place where `found` holds of what follows: the part before, and
the rest from there on. -/
def breakWhere (found : List α → Bool) : List α → Option (List α × List α)
  | [] => if found [] then some ([], []) else none
  | c :: rest =>
    if found (c :: rest) then some ([], c :: rest)
    else (breakWhere found rest).map fun (before, after) => (c :: before, after)

theorem breakWhere_append {found : List α → Bool} {text before after : List α}
    (h : breakWhere found text = some (before, after)) : text = before ++ after := by
  induction text generalizing before with
  | nil => simp only [breakWhere] at h; split at h <;> simp_all
  | cons c rest ih =>
    simp only [breakWhere] at h
    split at h
    · simp_all
    · simp only [Option.map_eq_some_iff, Prod.exists, Prod.mk.injEq] at h
      obtain ⟨b, a, hb, rfl, rfl⟩ := h
      simp [ih hb]

/-- The text before the first occurrence of `word` and the text after it. -/
def splitAtWord [DecidableEq α] (word text : List α) : Option (List α × List α) :=
  (breakWhere (startsWith word) text).map fun (before, after) =>
    (before, after.drop word.length)

/-- Whether `word` occurs somewhere in the text. -/
def occursIn [DecidableEq α] (word text : List α) : Bool :=
  (breakWhere (startsWith word) text).isSome

end ClassGraph.Text
