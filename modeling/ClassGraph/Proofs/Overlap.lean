import ClassGraph.Proofs.Pattern

/-! # Where blocks overlap

The two styles are looked for separately, so a diagram with marks in a fence is
found twice. Blocks of one style never overlap. A block between marks overlaps one
in a fence only if one of them opens within the other: the fence holds the start
mark and its line, or it opens behind the start mark and in front of the end mark.
-/

namespace ClassGraph

open Text

namespace Page

variable {page : Text} {k i l e j o s t : Nat} {b : Block}

/-- The block holds the character at a place of the page. -/
def Block.Covers (b : Block) (x : Nat) : Prop := b.offset ≤ x ∧ x < b.finish

instance (b : Block) (x : Nat) : Decidable (b.Covers x) := inferInstanceAs (Decidable (_ ∧ _))

/-- No character of the page is in both blocks. -/
def Block.Apart (b c : Block) : Prop := ∀ x, b.Covers x → ¬ c.Covers x

theorem pairwise_apart {style : List Block}
    (ordered : style.Pairwise fun b c => b.finish ≤ c.offset) : style.Pairwise Block.Apart :=
  ordered.imp fun before _ hb hc => Nat.not_le_of_lt hb.2 (before.trans hc.1)

theorem covers_piece (le : s ≤ e) (inside : e ≤ page.length) {x : Nat} :
    (piece page s e).Covers x ↔ s ≤ x ∧ x < e := by
  unfold Block.Covers
  rw [finish_piece le inside]
  rfl

/-- The letters of a start mark are no backticks. -/
theorem StartAt.not_tripleAt (h : StartAt page i) {x : Nat} (hx : i ≤ x)
    (before : x < i + startMark.length) : ¬ TripleAt page x := fun triple =>
  h.spelled.getElem?_ne (by decide) hx before triple.backtick

theorem StartAt.sign (h : StartAt page i) : page[i]? = some (.scalar '@') := by
  obtain ⟨c, hc, letter⟩ := h.spelled.getElem? (n := 0) (by decide)
  change isLetterOf (.scalar '@') c = true at letter
  rcases eq_or_upper_of_isLetterOf (by decide) letter with rfl | ⟨d, rfl, least, moved⟩
  · exact hc
  · have sign : d.val + 32 = 64 := moved
    grind

/-- The opening of a fence has no sign of a mark. -/
theorem FenceAt.not_startAt (h : FenceAt page o s) {x : Nat} (hx : o ≤ x) (before : x < s) :
    ¬ StartAt page x := by
  intro start
  by_cases inside : x < o + fence.length
  · exact (lettersAt_fence.mpr h.1).getElem?_ne (by decide) hx inside start.sign
  · exact h.mayOpen.getElem?_ne (by decide) (by decide) (by omega) before start.sign

/-- Of two blocks with a character in common one opens within the other. -/
theorem opens_within (marks : MarkedAt page k i l e) (fences : FencedAt page j o s t) {x : Nat}
    (inMarked : l + 1 ≤ x ∧ x < e) (inFenced : s ≤ x ∧ x < t) :
    s ≤ i ∧ l < t ∨ i + startMark.length ≤ o ∧ s ≤ e := by
  by_cases first : o < i
  · refine .inl ⟨?_, by omega⟩
    by_contra inside
    exact fences.opens.not_startAt (by omega) (Nat.lt_of_not_le inside) marks.start.here
  · refine .inr ⟨?_, by omega⟩
    by_contra inside
    exact marks.start.here.not_tripleAt (by omega) (Nat.lt_of_not_le inside) fences.opens.1

theorem fromPage_of_itemAt (path : String) {place : Int} (nonempty : blocks page ≠ [])
    (h : itemAt (blocks page) place = .ok b) :
    Source.fromPage path page (some place) = .ok b.text := by
  unfold Source.fromPage
  split
  · exact absurd ‹_› nonempty
  · simp only [h]

/-- A place that is counted from the front selects the block there. -/
theorem fromPage_of_getElem? (path : String) {n : Nat} (small : n < 0x8000000000000000)
    (h : (blocks page)[n]? = some b) : Source.fromPage path page (some n) = .ok b.text := by
  obtain ⟨inside, here⟩ := List.getElem?_eq_some_iff.mp h
  exact fromPage_of_itemAt path (List.ne_nil_of_length_pos (Nat.zero_lt_of_lt inside))
    ((itemAt_natCast inside small).trans (congrArg _ here))

/-- Blocks of one style have no character in common, and a block between marks has
one in common with a block in a fence only if one of them opens within the other. A
place in the list of blocks selects the block there. -/
theorem blocks_apart (page : Text) :
    (marked page).Pairwise Block.Apart ∧ (fenced page).Pairwise Block.Apart ∧
    (∀ m ∈ marked page, ∀ f ∈ fenced page, m.Apart f ∨
      ∃ k i l e, MarkedAt page k i l e ∧ m = piece page (l + 1) e ∧
        ∃ j o s t, FencedAt page j o s t ∧ f = piece page s t ∧
          (s ≤ i ∧ l < t ∨ i + startMark.length ≤ o ∧ s ≤ e)) ∧
    ∀ (path : String) (n : Nat) (b : Block), n < 0x8000000000000000 → (blocks page)[n]? = some b →
      Source.fromPage path page (some n) = .ok b.text := by
  have marks : Scan (nextMarked page) 0 (marked page) := scan_marked_iff.mpr rfl
  have fences : Scan (nextFenced page) 0 (fenced page) := scan_fenced_iff.mpr rfl
  refine ⟨pairwise_apart (marks.pairwise (cuts_nextMarked page)),
    pairwise_apart (fences.pairwise (cuts_nextFenced page)), fun m hm f hf => ?_,
    fun path _ _ => fromPage_of_getElem? path⟩
  obtain ⟨k, _, i, l, e, first, rfl, _⟩ := marks.exists_next m hm
  obtain ⟨j, _, o, s, t, second, rfl, _⟩ := fences.exists_next f hf
  refine or_iff_not_imp_left.mpr fun shared => ?_
  obtain ⟨x, inMarked, inFenced⟩ : ∃ x, (piece page (l + 1) e).Covers x ∧
      (piece page s t).Covers x := by
    by_contra none
    exact shared fun x hx hy => none ⟨x, hx, hy⟩
  have markedEnd := first.finish.here.le_length (by decide)
  have fencedEnd := second.finish.here.le_length
  rw [covers_piece first.finish.le (by omega)] at inMarked
  rw [covers_piece second.finish.le (by omega)] at inFenced
  exact ⟨k, i, l, e, first, rfl, j, o, s, t, second, rfl,
    opens_within first second inMarked inFenced⟩

/-- A diagram with marks in a fence. -/
def nestedPage : Text := "\x60\x60\x60plantuml\n@startuml\nA\n@enduml\n\x60\x60\x60"

theorem marked_nestedPage : marked nestedPage = [⟨22, "A\n"⟩] := by decide +kernel

theorem fenced_nestedPage : fenced nestedPage = [⟨12, "@startuml\nA\n@enduml\n"⟩] := by
  decide +kernel

theorem blocks_apart_of_nested : Source.fromPage "page.md" nestedPage (some 1) =
      .ok "@startuml\nA\n@enduml\n" ∧
    ∃ k i l e, MarkedAt nestedPage k i l e ∧ ∃ j o s t, FencedAt nestedPage j o s t ∧
      (s ≤ i ∧ l < t ∨ i + startMark.length ≤ o ∧ s ≤ e) := by
  obtain ⟨_, _, across, index⟩ := blocks_apart nestedPage
  have all : blocks nestedPage = [⟨22, "A\n"⟩, ⟨12, "@startuml\nA\n@enduml\n"⟩] := by
    rw [blocks, marked_nestedPage, fenced_nestedPage]
    rfl
  constructor
  · exact index "page.md" 1 ⟨12, "@startuml\nA\n@enduml\n"⟩ (by decide) (by rw [all]; rfl)
  · rw [marked_nestedPage, fenced_nestedPage] at across
    rcases across _ List.mem_cons_self _ List.mem_cons_self with apart | nested
    · exact absurd (by decide) (apart 22 (by decide))
    · obtain ⟨k, i, l, e, first, _, j, o, s, t, second, _, within⟩ := nested
      exact ⟨k, i, l, e, first, j, o, s, t, second, within⟩

/-- The characters of the body between the marks are in both blocks. -/
theorem blocks_overlap_of_nested : ¬ (blocks nestedPage).Pairwise Block.Apart := by
  rw [blocks, marked_nestedPage, fenced_nestedPage]
  intro apart
  have first := (List.pairwise_cons.mp apart).1 _ List.mem_cons_self
  exact first 22 (by decide) (by decide)

end Page
end ClassGraph
