import ClassGraph.Files.Tree

/-! # A file that is kept

A file can be put at a path once its directories are there and nothing but a file
stands in its place. Putting it there leaves every way through the tree as it
was, for no way leads through a file. From then on the file can be read, and
written again without making a directory.
-/

namespace ClassGraph.FileTree

open Files

variable {t t' : FileTree} {l m : Location} {node : Node} {path : Path} {content : ByteArray}

/-! ## One location -/

theorem lookup_setNode_self (t : FileTree) (l : Location) (node : Node) :
    (t.setNode l node).entries.lookup l = some node := by
  have replaced (entries : List (Location × Node)) (present : entries.any (·.1 == l) = true) :
      (entries.map fun entry => if entry.1 = l then (l, node) else entry).lookup l = some node := by
    induction entries with
    | nil => cases present
    | cons entry rest ih =>
      obtain ⟨k, old⟩ := entry
      by_cases hk : k = l
      · simp [hk]
      · have other : (k == l) = false ∧ (l == k) = false := by
          simpa using ⟨hk, fun e => hk e.symm⟩
        rw [List.any_cons, other.1, Bool.false_or] at present
        simp only [List.map_cons, if_neg hk, List.lookup_cons, other.2]
        exact ih present
  unfold setNode
  split
  · exact replaced t.entries ‹_›
  · rename_i absent
    have unbound : t.entries.lookup l = none := by
      refine List.lookup_eq_none_iff.mpr fun entry mem => ?_
      refine bne_iff_ne.mpr fun same => absent ?_
      exact List.any_eq_true.mpr ⟨entry, mem, beq_iff_eq.mpr same.symm⟩
    simp [List.lookup_append, unbound]

theorem lookup_setNode_of_ne (h : m ≠ l) (t : FileTree) (node : Node) :
    (t.setNode l node).entries.lookup m = t.entries.lookup m := by
  have other : (m == l) = false := by simpa using h
  have replaced (entries : List (Location × Node)) :
      (entries.map fun entry => if entry.1 = l then (l, node) else entry).lookup m =
        entries.lookup m := by
    induction entries with
    | nil => rfl
    | cons entry rest ih =>
      obtain ⟨k, old⟩ := entry
      by_cases hk : k = l
      · subst hk
        simp only [List.map_cons, if_true, List.lookup_cons, other, ih]
      · simp only [List.map_cons, if_neg hk, List.lookup_cons, ih]
  unfold setNode
  split
  · exact replaced t.entries
  · simp [List.lookup_append, List.lookup_cons, other]

theorem names_ne_nil (h : t.node? l ≠ some .directory) : l.names ≠ [] := by
  intro empty
  exact h (by rw [node?, empty]; rfl)

/-- What is put at a location that is no directory is there. -/
theorem node?_setNode_self (h : t.node? l ≠ some .directory) (node : Node) :
    (t.setNode l node).node? l = some node := by
  have named : l.names.isEmpty = false := by simpa using names_ne_nil h
  simp [node?, named, lookup_setNode_self]

theorem node?_setNode_of_ne (h : m ≠ l) (t : FileTree) (node : Node) :
    (t.setNode l node).node? m = t.node? m := by
  simp only [node?, lookup_setNode_of_ne h]

/-! ## Ways through the tree -/

/-- A way on leads out of a directory. -/
theorem directory_of_enter {a b : Location} {part : String} (h : t.enter a part = .ok b) :
    t.node? a = some .directory := by
  unfold enter at h
  split at h
  · cases h
  · cases h
  · cases h
  · assumption

/-- What can be reached is reached in every tree that has each way on. -/
theorem locate_of_enter
    (ways : ∀ a b part, t.enter a part = .ok b → t'.enter a part = .ok b)
    (way : t.locate path = .ok m) : t'.locate path = .ok m := by
  have walk (parts : List String) (a : Location) (way : parts.foldlM t.enter a = .ok m) :
      parts.foldlM t'.enter a = .ok m := by
    induction parts generalizing a with
    | nil => exact way
    | cons part parts ih =>
      rw [List.foldlM_cons] at way ⊢
      cases first : t.enter a part with
      | error e => rw [first] at way; cases way
      | ok b =>
        rw [first] at way
        rw [ways a b part first]
        exact ih b way
  unfold locate at way ⊢
  split at way
  · cases way
  · exact walk _ _ way

/-- What is put where no directory is bars no way. -/
theorem locate_setNode (h : t.node? l ≠ some .directory) (node : Node)
    (way : t.locate path = .ok m) : (t.setNode l node).locate path = .ok m := by
  refine locate_of_enter (fun a b part way => ?_) way
  have directory := directory_of_enter way
  have other : a ≠ l := by
    rintro rfl
    exact h directory
  rw [← way]
  simp only [FileTree.enter, node?_setNode_of_ne other]

theorem isDirectory_iff : t.isDirectory path = true ↔
    ∃ m, t.locate path = .ok m ∧ t.node? m = some .directory := by
  unfold isDirectory
  constructor
  · intro h
    split at h
    · exact ⟨_, ‹_›, beq_iff_eq.mp h⟩
    · cases h
  · rintro ⟨m, way, directory⟩
    rw [way]
    exact beq_iff_eq.mpr directory

theorem isDirectory_setNode (h : t.node? l ≠ some .directory) (node : Node)
    (directory : t.isDirectory path = true) : (t.setNode l node).isDirectory path = true := by
  obtain ⟨m, way, there⟩ := isDirectory_iff.mp directory
  have other : m ≠ l := by
    rintro rfl
    exact h there
  exact isDirectory_iff.mpr ⟨m, locate_setNode h node way, by rw [node?_setNode_of_ne other, there]⟩

theorem exists?_of_read (h : t.read path = .ok content) : t.exists? path = .ok true := by
  unfold read at h
  split at h
  · cases h
  · rename_i l way
    rw [exists?, way]
    cases there : t.node? l with
    | some node => simp only [there, Option.isSome_some]
    | none => rw [there] at h; cases h

/-! ## Directories -/

theorem ensureDirectory_of_isDirectory (h : t.isDirectory path = true) :
    t.ensureDirectory path = (.ok (), t) := by
  obtain ⟨m, way, there⟩ := isDirectory_iff.mp h
  simp [ensureDirectory, makeDirectory, way, there, h]

theorem ensureDirectories_of_isDirectory (h : t.isDirectory path = true) :
    t.ensureDirectories path = (.ok (), t) := by
  rw [ensureDirectories, ensureDirectory_of_isDirectory h]

/-! ## Keeping a file -/

/-- A file can be put at a path, or stands there: the directory above is there, and the place is
free or taken by a file. The null device is no file; it keeps nothing. -/
structure Room (t : FileTree) (path : Path) (l : Location) : Prop where
  parent : t.isDirectory path.parent = true
  place : t.locate path = .ok l
  free : t.node? l = none ∨ ∃ content, t.node? l = some (.file content)

/-- A path at which a file can be kept, once the missing directories above it are made. -/
def Keeps (t : FileTree) (path : Path) : Prop :=
  ∃ t' l, t.ensureDirectories path.parent = (.ok (), t') ∧ t'.Room path l

/-- A file with some content stands at a path. -/
def Stores (t : FileTree) (path : Path) (content : ByteArray) : Prop :=
  ∃ l, t.Room path l ∧ t.node? l = some (.file content)

theorem Room.ne_directory (h : t.Room path l) : t.node? l ≠ some .directory := by
  rcases h.free with free | ⟨content, file⟩
  · rw [free]; nofun
  · rw [file]; nofun

theorem Room.stores (h : t.Room path l) (content : ByteArray) :
    (t.setNode l (.file content)).Stores path content := by
  have here := node?_setNode_self h.ne_directory (.file content)
  exact ⟨l, ⟨isDirectory_setNode h.ne_directory _ h.parent, locate_setNode h.ne_directory _ h.place,
    .inr ⟨content, here⟩⟩, here⟩

theorem Room.write (h : t.Room path l) (content : ByteArray) :
    ∃ t', t.write path content = .ok t' ∧ t'.Stores path content := by
  refine ⟨_, ?_, h.stores content⟩
  unfold FileTree.write
  rcases h.free with free | ⟨content, file⟩
  · rw [h.place]; simp only [free]
  · rw [h.place]; simp only [file]

theorem Room.keeps (h : t.Room path l) : t.Keeps path :=
  ⟨t, l, ensureDirectories_of_isDirectory h.parent, h⟩

theorem Stores.keeps (h : t.Stores path content) : t.Keeps path := by
  obtain ⟨l, room, _⟩ := h
  exact room.keeps

theorem Stores.write (h : t.Stores path content) (content' : ByteArray) :
    ∃ t', t.write path content' = .ok t' ∧ t'.Stores path content' := by
  obtain ⟨l, room, _⟩ := h
  exact room.write content'

/-- Where a file can be kept it can be saved, and then stands there. -/
theorem Keeps.save (h : t.Keeps path) (content : ByteArray) :
    ∃ t', t.save path content = (.ok (), t') ∧ t'.Stores path content := by
  obtain ⟨t₁, l, made, room⟩ := h
  obtain ⟨t₂, written, stores⟩ := room.write content
  exact ⟨t₂, by simp only [FileTree.save, made, written], stores⟩

theorem Stores.read (h : t.Stores path content) : t.read path = .ok content := by
  obtain ⟨l, room, file⟩ := h
  simp only [FileTree.read, room.place, file]

/-- A path as it is written that leads to a place for a file. One that ends in a slash leads to a
directory. -/
structure Writable (t : FileTree) (written : String) : Prop where
  taken : checkPath written = .ok ()
  slash : written.endsWith "/" = false
  point : written.endsWith "/." = false
  keeps : t.Keeps (.ofText written)

/-- The empty path leads to no file. -/
theorem Writable.ne_empty {written : String} (h : t.Writable written) : written ≠ "" := by
  rintro rfl
  obtain ⟨t', l, _, room⟩ := h.keeps
  refine room.ne_directory ?_
  have place : t'.locate (.ofText "") = .ok .here := rfl
  rw [room.place] at place
  cases place
  rfl

theorem Stores.readAsWritten {written : String} (h : t.Stores (.ofText written) content)
    (taken : checkPath written = .ok ()) (slash : written.endsWith "/" = false)
    (point : written.endsWith "/." = false) (named : written ≠ "") :
    t.readAsWritten written = .ok content := by
  have full : written.isEmpty = false := by
    simpa [String.isEmpty_iff] using named
  simp only [FileTree.readAsWritten, full, taken, h.read, slash, point, Bool.false_eq_true,
    if_false, Bool.or_self]

end ClassGraph.FileTree
