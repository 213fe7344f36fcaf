import ClassGraph.Text.Search
import Mathlib.Data.List.Infix

/-! # The first occurrence is found

A search cuts a text where the word occurs first. Whether a word occurs in front
of its first occurrence needs a second look: the part in front may go on with a
piece of the occurrence itself. A word whose first letter does not come again in
it cannot overlap itself, and is found exactly behind a part without it.
-/

namespace ClassGraph.Text

variable {α : Type}

theorem breakWhere_eq_some_iff {found : List α → Bool} {text before after : List α} :
    breakWhere found text = some (before, after) ↔ text = before ++ after ∧ found after = true ∧
      ∀ s, s ≠ [] → s <:+ before → found (s ++ after) = false := by
  induction text generalizing before with
  | nil =>
    rw [breakWhere]
    constructor
    · intro h
      split at h
      · rename_i hf
        cases h
        exact ⟨rfl, hf, fun s hs hsuf => absurd (List.suffix_nil.mp hsuf) hs⟩
      · cases h
    · intro h
      obtain ⟨he, hf, _⟩ := h
      obtain ⟨rfl, rfl⟩ := List.append_eq_nil_iff.mp he.symm
      rw [if_pos hf]
  | cons c rest ih =>
    rw [breakWhere]
    constructor
    · intro h
      split at h
      · rename_i hf
        cases h
        exact ⟨rfl, hf, fun s hs hsuf => absurd (List.suffix_nil.mp hsuf) hs⟩
      · rename_i hf
        obtain ⟨⟨front, tail⟩, hb, he⟩ := Option.map_eq_some_iff.mp h
        cases he
        obtain ⟨rfl, hfound, earlier⟩ := ih.mp hb
        refine ⟨rfl, hfound, fun s hs hsuf => ?_⟩
        rcases List.suffix_cons_iff.mp hsuf with rfl | hsuf
        · exact Bool.eq_false_iff.mpr hf
        · exact earlier s hs hsuf
    · intro h
      obtain ⟨he, hf, earlier⟩ := h
      cases before with
      | nil =>
        rw [List.nil_append] at he
        rw [he, if_pos hf]
      | cons d front =>
        obtain ⟨rfl, hrest⟩ := List.cons.inj he
        rw [List.append_eq] at hrest
        subst hrest
        have whole := earlier (c :: front) (List.cons_ne_nil _ _) (List.suffix_refl _)
        have first := ih.mpr ⟨rfl, hf, fun s hs hsuf =>
          earlier s hs (hsuf.trans (List.suffix_cons _ _))⟩
        rw [List.cons_append] at whole
        rw [if_neg (Bool.eq_false_iff.mp whole), first]; rfl

theorem breakWhere_eq_none_iff {found : List α → Bool} {text : List α} :
    breakWhere found text = none ↔ ∀ s, s <:+ text → found s = false := by
  induction text with
  | nil =>
    rw [breakWhere]
    constructor
    · intro h s hs
      rw [List.suffix_nil.mp hs]
      split at h
      · cases h
      · rename_i hf; exact Bool.eq_false_iff.mpr hf
    · intro h
      rw [if_neg (Bool.eq_false_iff.mp (h [] (List.suffix_refl _)))]
  | cons c rest ih =>
    rw [breakWhere]
    constructor
    · intro h s hs
      split at h
      · cases h
      · rename_i hf
        rcases List.suffix_cons_iff.mp hs with rfl | hs
        · exact Bool.eq_false_iff.mpr hf
        · exact ih.mp (Option.map_eq_none_iff.mp h) s hs
    · intro h
      rw [if_neg (Bool.eq_false_iff.mp (h _ (List.suffix_refl _))),
        ih.mpr fun s hs => h s (hs.trans (List.suffix_cons _ _))]
      rfl

/-- A word that does not overlap itself occurs behind a part exactly if it does
not occur in it. -/
theorem not_prefix_of_suffix_iff {a : α} {tail before : List α} (after : List α) (ha : a ∉ tail) :
    (∀ s, s ≠ [] → s <:+ before → ¬ a :: tail <+: s ++ (a :: tail ++ after)) ↔
      ¬ a :: tail <:+: before := by
  constructor
  · intro h hin
    obtain ⟨s, hpre, hsuf⟩ := List.infix_iff_prefix_suffix.mp hin
    exact h s (by rintro rfl; cases List.prefix_nil.mp hpre) hsuf
      (hpre.trans (List.prefix_append _ _))
  · intro h s hs hsuf hpre
    obtain ⟨rest, he⟩ := hpre
    rcases List.append_eq_append_iff.mp he with ⟨l, hsl, _⟩ | ⟨l, hword, hl⟩
    · -- the word lies within the part
      exact h (List.infix_iff_prefix_suffix.mpr ⟨s, ⟨l, hsl.symm⟩, hsuf⟩)
    · -- the part ends within the word, which would begin again there
      cases l with
      | nil =>
        rw [List.append_nil] at hword
        exact h (List.infix_iff_prefix_suffix.mpr ⟨s, hword ▸ List.prefix_refl _, hsuf⟩)
      | cons b l =>
        obtain ⟨c, t, rfl⟩ := List.exists_cons_of_ne_nil hs
        rw [List.cons_append] at hl
        obtain ⟨rfl, _⟩ := List.cons.inj hl
        obtain ⟨_, rfl⟩ := List.cons.inj hword
        exact ha (List.mem_append_right _ List.mem_cons_self)

variable [DecidableEq α]

theorem startsWith_iff {word text : List α} : startsWith word text = true ↔ word <+: text := by
  unfold startsWith
  rw [Option.isSome_iff_exists]
  simp only [stripWord?_eq_some_iff]
  exact exists_congr fun _ => eq_comm

theorem splitAtWord_eq_none_iff {word text : List α} :
    splitAtWord word text = none ↔ ¬ word <:+: text := by
  unfold splitAtWord
  rw [Option.map_eq_none_iff, breakWhere_eq_none_iff, List.infix_iff_prefix_suffix]
  simp only [← Bool.not_eq_true, startsWith_iff, not_exists, not_and']

theorem splitAtWord_eq_some_iff {a : α} {tail text before after : List α} (ha : a ∉ tail) :
    splitAtWord (a :: tail) text = some (before, after) ↔
      text = before ++ (a :: tail ++ after) ∧ ¬ a :: tail <:+: before := by
  unfold splitAtWord
  rw [Option.map_eq_some_iff, ← not_prefix_of_suffix_iff after ha]
  simp only [Prod.exists, Prod.mk.injEq, breakWhere_eq_some_iff, startsWith_iff,
    ← Bool.not_eq_true]
  constructor
  · intro h
    obtain ⟨front, found, ⟨rfl, hw, earlier⟩, rfl, rfl⟩ := h
    obtain ⟨rest, rfl⟩ := hw
    rw [List.drop_left]
    exact ⟨rfl, earlier⟩
  · intro h
    obtain ⟨rfl, earlier⟩ := h
    exact ⟨before, _, ⟨rfl, List.prefix_append _ _, earlier⟩, rfl, List.drop_left⟩

end ClassGraph.Text
