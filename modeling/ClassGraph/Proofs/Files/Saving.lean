import ClassGraph.Proofs.Files

/-! # What saving a file leaves behind

Saving makes the directories above a path and then writes the file. Directories
are made where nothing was, so whatever can be read can be read as before. If
saving fails, then the directory above is missing or something else than a file
stands at the path: no file can be read there, neither before nor after. If it
succeeds, the path is read as what was saved, or leads to the null device.
-/

namespace ClassGraph.FileTree

open Files

variable {t t' : FileTree} {l m : Location} {path : Path} {content : ByteArray} {e : FileError}

/-! ## Directories more -/

/-- What was there is there as it was, and what is new is a directory. -/
def Widens (t t' : FileTree) : Prop :=
  ∀ m, t'.node? m = t.node? m ∨ t.node? m = none ∧ t'.node? m = some .directory

theorem Widens.refl (t : FileTree) : t.Widens t := fun _ => .inl rfl

theorem Widens.trans {t₁ t₂ t₃ : FileTree} (h : t₁.Widens t₂) (h' : t₂.Widens t₃) :
    t₁.Widens t₃ := by
  intro m
  rcases h m with same | ⟨free, made⟩
  · rw [← same]
    exact h' m
  · rcases h' m with same | ⟨open', _⟩
    · exact .inr ⟨free, same.trans made⟩
    · rw [made] at open'
      cases open'

theorem Widens.node? {node : Node} (h : t.Widens t') (there : t.node? m = some node) :
    t'.node? m = some node := by
  rcases h m with same | ⟨free, _⟩
  · exact same.trans there
  · rw [there] at free
    cases free

theorem widens_setNode (free : t.node? l = none) : t.Widens (t.setNode l .directory) := by
  intro m
  by_cases here : m = l
  · subst here
    exact .inr ⟨free, node?_setNode_self (by rw [free]; nofun) _⟩
  · exact .inl (node?_setNode_of_ne here t _)

/-- What can be reached over directories is reached as before. -/
theorem Widens.locate (h : t.Widens t') (way : t.locate path = .ok m) :
    t'.locate path = .ok m := by
  refine locate_of_enter (fun a b part way => ?_) way
  have before := directory_of_enter way
  rw [← way]
  simp only [FileTree.enter, before, h.node? before]

theorem read_eq_ok_iff : t.read path = .ok content ↔ ∃ l, t.locate path = .ok l ∧
    (t.node? l = some (.file content) ∨ t.node? l = some .nullDevice ∧ content = .empty) := by
  unfold read
  cases t.locate path with
  | error e => simp
  | ok l =>
    simp only [Except.ok.injEq, exists_eq_left']
    split <;> rename_i there <;> simp [there, eq_comm]

theorem Widens.read (h : t.Widens t') (bytes : t.read path = .ok content) :
    t'.read path = .ok content := by
  obtain ⟨l, way, file | ⟨device, empty⟩⟩ := read_eq_ok_iff.mp bytes
  · exact read_eq_ok_iff.mpr ⟨l, h.locate way, .inl (h.node? file)⟩
  · exact read_eq_ok_iff.mpr ⟨l, h.locate way, .inr ⟨h.node? device, empty⟩⟩

/-! ## Making directories -/

theorem makeDirectory_eq_ok_iff : t.makeDirectory path = .ok t' ↔
    ∃ l, t.locate path = .ok l ∧ t.node? l = none ∧ t' = t.setNode l .directory := by
  unfold makeDirectory
  cases t.locate path with
  | error e => simp
  | ok l => cases there : t.node? l <;> simp [there, eq_comm]

theorem widens_ensureDirectory (t : FileTree) (path : Path) :
    t.Widens (t.ensureDirectory path).2 := by
  unfold ensureDirectory
  cases made : t.makeDirectory path with
  | error e => exact .refl t
  | ok t' =>
    obtain ⟨l, _, free, rfl⟩ := makeDirectory_eq_ok_iff.mp made
    exact widens_setNode free

theorem widens_ensureDirectories (t : FileTree) (path : Path) :
    t.Widens (t.ensureDirectories path).2 := by
  fun_induction ensureDirectories t path with
  | case1 t path t' failed root =>
    have widens := widens_ensureDirectory t path
    rwa [failed] at widens
  | case2 t path t' failed below above made ih =>
    have first := widens_ensureDirectory t path
    rw [failed] at first
    rw [made] at ih
    exact (first.trans ih).trans (widens_ensureDirectory _ path)
  | case3 t path t' failed below stopped ih =>
    have first := widens_ensureDirectory t path
    rw [failed] at first
    exact first.trans ih
  | case4 t path done => exact widens_ensureDirectory t path

/-- One directory is there exactly if making it has not failed. -/
theorem isDirectory_ensureDirectory (t : FileTree) (path : Path) :
    (t.ensureDirectory path).2.isDirectory path = (t.ensureDirectory path).1.isOk := by
  unfold ensureDirectory
  cases made : t.makeDirectory path with
  | error e => cases h : t.isDirectory path <;> simp [Except.isOk, Except.toBool]
  | ok t' =>
    obtain ⟨l, way, free, rfl⟩ := makeDirectory_eq_ok_iff.mp made
    have widens := widens_setNode free
    exact isDirectory_iff.mpr ⟨l, widens.locate way, node?_setNode_self (by rw [free]; nofun) _⟩

/-! ## The directory above a path -/

theorem checkPath_eq_ok_iff {written : String} : checkPath written = .ok () ↔
    '\x00' ∉ written.toList ∧ written.utf8ByteSize ≤ maxPathBytes := by
  unfold checkPath
  split
  · simp_all
  · split
    · simp_all
    · simp_all

/-- A path begins with the directory above it, unless that is the directory from
which all is counted. -/
theorem text_parent (path : Path) :
    path.parent.text = "." ∨ ∃ rest, path.text = path.parent.text ++ rest := by
  obtain ⟨root, parts⟩ := path
  by_cases bare : parts = []
  · subst bare
    exact .inr ⟨"", (String.append_empty).symm⟩
  obtain ⟨above, name, rfl⟩ : ∃ above name, parts = above ++ [name] :=
    ⟨_, _, (List.dropLast_concat_getLast bare).symm⟩
  have parent : (⟨root, above ++ [name]⟩ : Path).parent = ⟨root, above⟩ := by simp [Path.parent]
  have text (parts : List String) (named : (parts.isEmpty && root.isEmpty) = false) :
      (⟨root, parts⟩ : Path).text = root ++ String.intercalate "/" parts := by
    simp [Path.text, named]
  rw [parent, text (above ++ [name]) (by simp)]
  cases none : above.isEmpty && root.isEmpty with
  | true => exact .inl (by simp [Path.text, none])
  | false =>
    rw [text above none]
    right
    by_cases empty : above = []
    · subst empty
      exact ⟨String.intercalate "/" [name], by simp⟩
    · rw [String.intercalate_append_of_ne_nil empty (by simp)]
      exact ⟨"/" ++ String.intercalate "/" [name], by simp only [String.append_assoc]⟩

theorem checkPath_parent (h : checkPath path.text = .ok ()) :
    checkPath path.parent.text = .ok () := by
  rcases text_parent path with here | ⟨rest, text⟩
  · rw [here]
    rfl
  · rw [text, checkPath_eq_ok_iff, String.toList_append, List.mem_append,
      String.utf8ByteSize_append] at h
    exact checkPath_eq_ok_iff.mpr ⟨fun zero => h.1 (.inl zero), by omega⟩

/-- A way to a path leads through the directory above it. -/
theorem isDirectory_parent (h : t.locate path = .ok l) (named : path.parts ≠ []) :
    t.isDirectory path.parent = true := by
  have taken : checkPath path.text = .ok () := by
    unfold locate at h
    split at h
    · cases h
    · assumption
  have walk : path.parts.foldlM t.enter path.start = .ok l := by
    rw [← h, locate, taken]
  rw [← List.dropLast_concat_getLast named, List.foldlM_append] at walk
  cases way : path.parts.dropLast.foldlM t.enter path.start with
  | error e =>
    rw [way] at walk
    cases walk
  | ok above =>
    rw [way] at walk
    refine isDirectory_iff.mpr ⟨above, ?_, ?_⟩
    · rw [locate, checkPath_parent taken]
      exact way
    · change [path.parts.getLast named].foldlM t.enter above = .ok l at walk
      rw [List.foldlM_cons] at walk
      cases last : t.enter above (path.parts.getLast named) with
      | error e =>
        rw [last] at walk
        cases walk
      | ok => exact directory_of_enter last

/-- Nothing can be read where the directory above is missing. -/
theorem read_ne_ok_of_parent (h : t.isDirectory path.parent = false) :
    t.read path ≠ .ok content := by
  intro bytes
  obtain ⟨l, way, there⟩ := read_eq_ok_iff.mp bytes
  by_cases named : path.parts = []
  · have start : l = path.start := by
      unfold locate at way
      split at way
      · cases way
      · rw [named] at way
        exact (Except.ok.inj way).symm
    have directory : t.node? l = some .directory := by
      rw [start, node?]
      unfold Path.start
      split <;> rfl
    rw [directory] at there
    rcases there with file | ⟨device, _⟩
    · cases file
    · cases device
  · rw [isDirectory_parent way named] at h
    cases h

/-- The directories are there exactly if making them has not failed. -/
theorem isDirectory_ensureDirectories (t : FileTree) (path : Path) :
    (t.ensureDirectories path).2.isDirectory path = (t.ensureDirectories path).1.isOk := by
  fun_induction ensureDirectories t path with
  | case1 t path t' failed root =>
    have outcome := isDirectory_ensureDirectory t path
    rwa [failed] at outcome
  | case2 t path t' failed below above made ih => exact isDirectory_ensureDirectory _ path
  | case3 t path t' failed below stopped ih =>
    have refused : (t'.ensureDirectories path.parent).1.isOk = false := by
      cases outcome : t'.ensureDirectories path.parent with
      | mk result t₁ =>
        cases result with
        | error e => rfl
        | ok => exact absurd outcome (stopped t₁)
    rw [refused] at ih ⊢
    rw [← Bool.not_eq_true] at ih ⊢
    intro there
    obtain ⟨l, way, _⟩ := isDirectory_iff.mp there
    exact ih (isDirectory_parent way below)
  | case4 t path done => exact isDirectory_ensureDirectory t path

/-! ## Saving -/

/-- Where saving fails, no file can be read, neither before nor after. -/
theorem unreadable_of_save (h : t.save path content = (.error e, t')) :
    t.Widens t' ∧ (∀ bytes, t.read path ≠ .ok bytes) ∧ ∀ bytes, t'.read path ≠ .ok bytes := by
  have widens := widens_ensureDirectories t path.parent
  have above := isDirectory_ensureDirectories t path.parent
  have after : t.Widens t' ∧ ∀ bytes, t'.read path ≠ .ok bytes := by
    unfold save at h
    split at h
    · rename_i t₁ made
      rw [made] at widens
      split at h
      · cases h
      · rename_i refused
        cases h
        refine ⟨widens, fun bytes read => ?_⟩
        obtain ⟨l, way, there⟩ := read_eq_ok_iff.mp read
        unfold write at refused
        rw [way] at refused
        rcases there with file | ⟨device, _⟩
        · simp only [file] at refused
          cases refused
        · simp only [device] at refused
          cases refused
    · rename_i stopped
      rw [h] at widens above
      exact ⟨widens, fun bytes => read_ne_ok_of_parent above⟩
  exact ⟨after.1, fun bytes read => after.2 bytes (after.1.read read), after.2⟩

/-- What saving does where it succeeds: after the directories are made, the content
is put at one location. The null device keeps nothing. -/
structure Saves (t : FileTree) (path : Path) (content : ByteArray) (t' : FileTree)
    (l : Location) : Prop where
  place : t'.locate path = .ok l
  here : t'.node? l = some (.file content) ∨ t'.node? l = some .nullDevice
  elsewhere : ∀ m ≠ l, t'.node? m = t.node? m ∨ t.node? m = none ∧ t'.node? m = some .directory

/-- What is read at the path is what was saved, or nothing. -/
theorem Saves.read (h : t.Saves path content t' l) :
    t'.read path = .ok content ∨ t'.read path = .ok .empty := by
  rcases h.here with file | device
  · exact .inl (read_eq_ok_iff.mpr ⟨l, h.place, .inl file⟩)
  · exact .inr (read_eq_ok_iff.mpr ⟨l, h.place, .inr ⟨device, rfl⟩⟩)

theorem exists_saves_of_save (h : t.save path content = (.ok (), t')) :
    ∃ l, t.Saves path content t' l := by
  have widens := widens_ensureDirectories t path.parent
  unfold save at h
  split at h
  · rename_i t₁ made
    rw [made] at widens
    split at h
    · rename_i t₂ written
      cases h
      unfold write at written
      cases way : t₁.locate path with
      | error e =>
        rw [way] at written
        cases written
      | ok l =>
        rw [way] at written
        refine ⟨l, ?_⟩
        simp only at written
        split at written
        · cases written
        · rename_i device
          cases written
          exact ⟨way, .inr device, fun m _ => widens m⟩
        · rename_i other _
          cases written
          refine ⟨locate_setNode other _ way, .inl (node?_setNode_self other _), fun m away => ?_⟩
          rw [node?_setNode_of_ne away]
          exact widens m
    · cases h
  · rename_i stopped
    exact absurd h (stopped t')

end ClassGraph.FileTree
