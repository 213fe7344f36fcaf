import ClassGraph.Proofs.Statement

/-! # Depth and scopes stand for a stack of frames

The builder counts open braces and records for each open package at which count
it was opened. That is enough to match braces: the recorded scopes are those of
a stack of frames whose height is the count, and the state changes with a brace
as the stack does. A plain frame needs no record, since the record of a package
below it has another depth.
-/

namespace ClassGraph

theorem Text.join_append (separator : Text) {texts texts' : List Text} (h : texts ≠ [])
    (h' : texts' ≠ []) : join separator (texts ++ texts') =
      join separator texts ++ separator ++ join separator texts' := by
  unfold join
  induction texts with
  | nil => exact absurd rfl h
  | cons u us ih =>
    cases us with
    | nil =>
      rw [List.singleton_append, List.intercalate_cons_of_ne_nil h', List.intercalate_singleton]
    | cons v vs =>
      have more : v :: vs ++ texts' ≠ [] := List.cons_ne_nil _ _
      rw [List.cons_append, List.intercalate_cons_of_ne_nil more,
        List.intercalate_cons_of_ne_nil (List.cons_ne_nil v vs), ih (List.cons_ne_nil v vs)]
      simp only [List.append_assoc]

theorem Text.join_singleton (separator t : Text) : join separator [t] = t :=
  List.intercalate_singleton

theorem Text.join_snoc (separator : Text) {texts : List Text} (h : texts ≠ []) (t : Text) :
    join separator (texts ++ [t]) = join separator texts ++ separator ++ t := by
  rw [join_append separator h (List.cons_ne_nil _ _), join_singleton]

namespace Frame

theorem allPlain_plain_iff {frames : List Frame} :
    AllPlain (.plain :: frames) ↔ AllPlain frames := by
  simp [AllPlain]

theorem not_allPlain_package {name : Text} {frames : List Frame} :
    ¬ AllPlain (.package name :: frames) := fun h => h name List.mem_cons_self

theorem filterMap_name?_eq_nil_iff {frames : List Frame} :
    frames.filterMap name? = [] ↔ AllPlain frames := by
  rw [List.filterMap_eq_nil_iff]
  constructor
  · intro h name hm
    cases h _ hm
  · intro h frame hm
    cases frame with
    | package name => exact absurd hm (h name)
    | plain => rfl

/-- Packages around each other, the first name outermost. -/
theorem filterMap_packages (names : List Text) :
    ((names.map package).reverse.filterMap name?).reverse = names := by
  rw [List.filterMap_reverse, List.reverse_reverse, List.filterMap_map]
  exact List.filterMap_some

theorem path_of_allPlain {frames : List Frame} (h : AllPlain frames) : path frames = [] := by
  unfold path
  rw [filterMap_name?_eq_nil_iff.mpr h]; rfl

theorem path_package_of_allPlain {name : Text} {frames : List Frame} (h : AllPlain frames) :
    path (.package name :: frames) = name := by
  unfold path
  rw [List.filterMap_cons_some (show name? (package name) = some name from rfl),
    filterMap_name?_eq_nil_iff.mpr h]
  exact List.intercalate_singleton

theorem path_package {name : Text} {frames : List Frame} (h : ¬ AllPlain frames) :
    path (.package name :: frames) = path frames ++ "/" ++ name := by
  unfold path
  rw [List.filterMap_cons_some (show name? (package name) = some name from rfl), List.reverse_cons]
  apply Text.join_snoc
  intro he
  exact h (filterMap_name?_eq_nil_iff.mp (List.reverse_eq_nil_iff.mp he))

end Frame

/-- What is recorded of the open frames: the packages, with their paths and the
number of frames around them. -/
def scopesOf : List Frame → List Scope
  | [] => []
  | .plain :: frames => scopesOf frames
  | .package name :: frames =>
    ⟨Frame.path (.package name :: frames), frames.length⟩ :: scopesOf frames

theorem scopesOf_eq_nil_iff {frames : List Frame} :
    scopesOf frames = [] ↔ Frame.AllPlain frames := by
  induction frames with
  | nil => simp [scopesOf, Frame.AllPlain]
  | cons frame frames ih =>
    cases frame with
    | plain => rw [Frame.allPlain_plain_iff, ← ih]; rfl
    | package name => exact ⟨nofun, fun h => absurd h Frame.not_allPlain_package⟩

/-- Every recorded depth is below the height of the stack. -/
theorem depth_lt_of_mem_scopesOf {frames : List Frame} {scope : Scope}
    (h : scope ∈ scopesOf frames) : scope.depth < frames.length := by
  induction frames with
  | nil => cases h
  | cons frame frames ih =>
    cases frame with
    | plain => exact Nat.lt_succ_of_lt (ih h)
    | package name =>
      rcases List.mem_cons.mp h with rfl | h
      · exact Nat.lt_succ_self _
      · exact Nat.lt_succ_of_lt (ih h)

namespace Builder

/-- The frames are what the recorded packages and the counter stand for. -/
structure Encloses (b : Builder) (frames : List Frame) : Prop where
  packages : b.packages = scopesOf frames
  depth : b.depth = frames.length

variable {b : Builder} {frames : List Frame}

theorem Encloses.currentPackage (h : b.Encloses frames) : b.currentPackage = Frame.path frames := by
  unfold Builder.currentPackage
  rw [h.packages]
  clear h
  induction frames with
  | nil => rfl
  | cons frame frames ih =>
    cases frame with
    | plain => exact ih
    | package name => rfl

theorem Encloses.packages_eq_nil_iff (h : b.Encloses frames) :
    b.packages = [] ↔ Frame.AllPlain frames := by
  rw [h.packages]; exact scopesOf_eq_nil_iff

theorem Encloses.innerPath (h : b.Encloses frames) (name : Text) :
    b.innerPath name = Frame.path (.package name :: frames) := by
  unfold Builder.innerPath
  rw [h.currentPackage]
  by_cases hp : Frame.AllPlain frames
  · rw [h.packages_eq_nil_iff.mpr hp, Frame.path_package_of_allPlain hp]; rfl
  · have hne : b.packages.isEmpty = false := by
      rw [List.isEmpty_eq_false_iff]; exact fun he => hp (h.packages_eq_nil_iff.mp he)
    rw [hne, Frame.path_package hp]; rfl

/-- A token alone changes nothing. -/
theorem Encloses.pass (h : b.Encloses frames) (t : Token) : (b.pass t).Encloses frames :=
  ⟨h.packages, h.depth⟩

theorem Encloses.openBrace (h : b.Encloses frames) : b.openBrace.Encloses (.plain :: frames) :=
  ⟨h.packages, congrArg (· + 1) h.depth⟩

theorem Encloses.enter (h : b.Encloses frames) (name : Text) :
    (b.enter name).Encloses (.package name :: frames) := by
  refine ⟨?_, congrArg (· + 1) h.depth⟩
  show ⟨b.innerPath name, b.depth⟩ :: b.packages = _
  rw [h.innerPath, h.depth, h.packages]; rfl

/-- A close brace changes nothing but what is open. -/
theorem closeBrace_eq (b : Builder) : b.closeBrace =
    { b with depth := b.closeBrace.depth, packages := b.closeBrace.packages } := by
  unfold closeBrace
  split
  · rfl
  · split
    · split <;> rfl
    · rfl

/-- A close brace ends the innermost frame. The innermost recorded package has
the depth of that frame only if the frame is this package. -/
theorem Encloses.closeBrace (h : b.Encloses frames) : b.closeBrace.Encloses frames.tail := by
  cases frames with
  | nil =>
    unfold Builder.closeBrace
    rw [h.depth]; exact h
  | cons frame frames =>
    have hd : b.depth = frames.length + 1 := h.depth
    unfold Builder.closeBrace
    rw [hd]
    cases frame with
    | plain =>
      have hp : b.packages = scopesOf frames := h.packages
      cases hs : b.packages with
      | nil => exact ⟨hs.symm.trans hp, rfl⟩
      | cons scope rest =>
        have recorded : scope ∈ scopesOf frames := by rw [← hp, hs]; exact List.mem_cons_self
        have hlt := depth_lt_of_mem_scopesOf recorded
        simp only [if_neg (Nat.ne_of_lt hlt)]
        exact ⟨hs.symm.trans hp, rfl⟩
    | package name =>
      rw [h.packages]
      simp only [scopesOf, if_true]
      exact ⟨rfl, rfl⟩

end Builder

end ClassGraph
