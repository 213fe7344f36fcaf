import ClassGraph.Proofs.Files.Saving
import ClassGraph.Proofs.Persistence

/-! # Changes that cannot be saved

A change of an archive is made in memory first and written to the file then. What
is refused before that leaves every answer as it was. Where the file cannot be
written the change stays in memory: the version counts it and the answers show
it, though the caller is told that it failed. No file holds it then, and none
could be read before, so that an archive that is opened again is empty.
-/

namespace ClassGraph.Archive

open Json (setMember)

variable {a b : Archive} {name source : Text} {g : Graph} {e : ArchiveError}
  {entries changed : List (Text × Json)} {f : FileError}

/-- The version and all that can be asked are as before. -/
structure SameAnswers (a b : Archive) : Prop where
  version : b.version = a.version
  get? : ∀ name, b.get? name = a.get? name
  list : b.list = a.list

theorem sameAnswers_of_diagrams (diagrams : b.diagrams = a.diagrams)
    (version : b.version = a.version) : SameAnswers a b where
  version := version
  get? name := by simp only [Archive.get?, diagrams]
  list := by simp only [Archive.list, diagrams]

/-- The entries have become others in memory alone, for writing them failed: no file
could be read before, and none can be read now. -/
structure Unsaved (a b : Archive) (changed : List (Text × Json)) (f : FileError) : Prop where
  failed : (a.files.save a.path (Json.obj changed).pretty.toUTF8).1 = .error f
  memory : b.diagrams = .obj changed
  version : b.version = a.version + 1
  path : b.path = a.path
  before : ∀ bytes, a.files.read a.path ≠ .ok bytes
  after : ∀ bytes, b.files.read b.path ≠ .ok bytes

theorem Unsaved.not_sameAnswers (h : Unsaved a b changed f) : ¬ SameAnswers a b := by
  intro same
  have := h.version.symm.trans same.version
  omega

theorem Unsaved.get? (h : Unsaved a b changed f) (name : Text) :
    b.get? name = .ok (changed.lookup name) := by
  simp only [Archive.get?, h.memory]

/-- What was not saved is not there when the archive is opened again. -/
theorem Unsaved.reload (h : Unsaved a b changed f) {c : Archive} (opened : b.reload = .ok c) :
    c.diagrams = .obj [] := by
  change openAt b.toHost b.path = .ok c at opened
  rcases countsAsEmpty_or_holds_or_bars b.toHost.files b.path with
    empty | ⟨state, content, _, bytes, _⟩ | ⟨e, bars⟩
  · obtain ⟨log, empty⟩ := openAt_of_countsAsEmpty empty
    cases empty.symm.trans opened
    rfl
  · exact absurd bytes (h.after content)
  · cases (openAt_of_bars bars).symm.trans opened

/-- A change that fails is one that is not saved. -/
theorem unsaved_of_commit (failed : a.commit (.obj changed) = (.error e, b)) :
    ∃ f, e = .file f ∧ Unsaved a b changed f := by
  unfold commit Archive.save at failed
  split at failed
  · cases failed
  · rename_i f files saved
    cases failed
    obtain ⟨_, before, after⟩ := FileTree.unreadable_of_save saved
    exact ⟨f, rfl, by rw [saved], rfl, rfl, rfl, before, after⟩

/-- Why a diagram is not put, and what comes of it. -/
theorem put_error_cases (failed : a.put name source g = (.error e, b)) :
    (∃ through, e = .diagram (.cycle through)) ∧ b = a ∨
    e = .notMutable ∧ a.Unmapped ∧ b = { a with ticks := a.ticks + 1 } ∨
    ∃ f entries tree, e = .file f ∧ a.diagrams = .obj entries ∧ g.toTree = .ok tree ∧
      Unsaved a b (setMember name
        (Archive.entry name source tree (timestamp (a.ticks + 1))) entries) f := by
  cases tree : g.toTree with
  | error d =>
    rw [put_of_error tree] at failed
    cases failed
    obtain ⟨through, rfl⟩ := Graph.cycle_of_records tree
    exact .inl ⟨⟨through, rfl⟩, rfl⟩
  | ok records =>
    by_cases unmapped : a.Unmapped
    · rw [unmapped.put tree] at failed
      cases failed
      exact .inr (.inl ⟨rfl, unmapped, rfl⟩)
    · obtain ⟨entries, memory⟩ : ∃ entries, a.diagrams = .obj entries := by
        simpa [Unmapped] using unmapped
      simp only [put, tree, memory] at failed
      split at failed
      · cases failed
      · rename_i unsaved
        cases failed
        obtain ⟨f, rfl, lost⟩ := unsaved_of_commit unsaved
        exact .inr (.inr ⟨f, entries, records, rfl, memory, rfl, { lost with }⟩)

/-- Why an entry is not removed, and what comes of it. -/
theorem remove_error_cases (failed : a.remove name = (.error e, b)) :
    e = .notMutable ∧ a.Unmapped ∧ b = a ∨ ∃ f entries, e = .file f ∧ a.diagrams = .obj entries ∧
      (entries.lookup name).isSome = true ∧
      Unsaved a b (entries.filter fun m => m.1 != name) f := by
  by_cases unmapped : a.Unmapped
  · have unchanged := unmapped.remove name
    rw [failed] at unchanged
    refine .inl ⟨?_, unmapped, unchanged⟩
    unfold Archive.remove at failed
    split at failed
    · rename_i found
      exact absurd found (unmapped _)
    · split at failed
      · cases failed
      · cases failed
        rfl
      · rename_i refused
        cases failed
        unfold mentions at refused
        split at refused
        · cases refused
        · cases refused
        · cases refused
          rfl
  · obtain ⟨entries, memory⟩ : ∃ entries, a.diagrams = .obj entries := by
      simpa [Unmapped] using unmapped
    simp only [Archive.remove, memory] at failed
    split at failed
    · rename_i present
      split at failed
      · cases failed
      · rename_i unsaved
        cases failed
        obtain ⟨f, rfl, lost⟩ := unsaved_of_commit unsaved
        exact .inr ⟨f, entries, rfl, memory, present, lost⟩
    · cases failed

/-- A change that is saved or refused leaves every answer as it was, or is one that was not
saved. -/
theorem sameAnswers_iff (cases : (b.diagrams = a.diagrams ∧ b.version = a.version ∧
    ∀ f, e ≠ .file f) ∨ ∃ f changed, e = .file f ∧ Unsaved a b changed f) :
    SameAnswers a b ↔ ∀ f, e ≠ .file f := by
  rcases cases with ⟨diagrams, version, other⟩ | ⟨f, changed, rfl, unsaved⟩
  · exact iff_of_true (sameAnswers_of_diagrams diagrams version) other
  · exact iff_of_false unsaved.not_sameAnswers fun other => other f rfl

/-- A diagram is put in memory, and then fails to be saved. -/
theorem exists_put_of_unsavable {tree : List Record} {files : FileTree}
    (memory : a.diagrams = .obj entries) (treed : g.toTree = .ok tree)
    (unsavable : ∀ content, a.files.save a.path content = (.error f, files))
    (name source : Text) : ∃ b, a.put name source g = (.error (.file f), b) := by
  simp only [put, treed, memory, commit, Archive.save, unsavable, Prod.mk.injEq, true_and,
    exists_eq']

/-- An archive whose file is a directory is opened as an empty one. -/
theorem exists_openAt_of_directory : ∃ (host : Host) (a : Archive),
    host = ⟨⟨[(⟨.working 0, ["d"]⟩, .directory)]⟩, 0, ""⟩ ∧
    openAt host (.ofText "d") = .ok a ∧ a.diagrams = .obj [] ∧ a.version = 0 ∧
    ∀ content, a.files.save a.path content = (.error .isDirectory, a.files) := by
  let host : Host := ⟨⟨[(⟨.working 0, ["d"]⟩, .directory)]⟩, 0, ""⟩
  have above : host.files.isDirectory (Files.Path.ofText "d").parent = true := by decide +kernel
  refine ⟨host, _, rfl, rfl, rfl, rfl, fun content => ?_⟩
  change host.files.save (.ofText "d") content = (.error .isDirectory, host.files)
  rw [FileTree.save, FileTree.ensureDirectories_of_isDirectory above]
  rfl

/-- A call that fails changes no answer unless it fails because its change could not be saved. A
graph without a tree and a state that is no map are refused before anything is changed. A change
that cannot be saved stays: the version counts it, the answers show it, and no file holds it, so
that it is gone when the archive is opened again. This happens only where no file can be read; where
one can be, or one can be kept, every call that fails changes nothing. -/
theorem failed_calls_change_nothing_unless_unsaved (a : Archive) (name : Text) :
    (∀ source g e b, a.put name source g = (.error e, b) →
      (SameAnswers a b ↔ ∀ f, e ≠ .file f) ∧
      ((∃ through, e = .diagram (.cycle through)) ∨ e = .notMutable ∧ a.Unmapped ∨
        ∃ f entries tree, e = .file f ∧ a.diagrams = .obj entries ∧ g.toTree = .ok tree ∧
          Unsaved a b (setMember name
            (Archive.entry name source tree (timestamp (a.ticks + 1))) entries) f)) ∧
    (∀ e b, a.remove name = (.error e, b) →
      (SameAnswers a b ↔ ∀ f, e ≠ .file f) ∧
      (e = .notMutable ∧ a.Unmapped ∨
        ∃ f entries, e = .file f ∧ a.diagrams = .obj entries ∧
          (entries.lookup name).isSome = true ∧
          Unsaved a b (entries.filter fun m => m.1 != name) f)) ∧
    (∀ b changed f, Unsaved a b changed f →
      (∀ other, b.get? other = .ok (changed.lookup other)) ∧
        ∀ c, b.reload = .ok c → c.diagrams = .obj []) ∧
    (a.files.Keeps a.path ∨ (∃ bytes, a.files.read a.path = .ok bytes) →
      ∀ b changed f, ¬ Unsaved a b changed f) := by
  refine ⟨fun source g e b failed => ?_, fun e b failed => ?_, fun b changed f unsaved =>
    ⟨unsaved.get?, fun c => unsaved.reload⟩, ?_⟩
  · rcases put_error_cases failed with
      ⟨⟨through, rfl⟩, rfl⟩ | ⟨rfl, unmapped, rfl⟩ | ⟨f, entries, tree, rfl, memory, treed, unsaved⟩
    · exact ⟨sameAnswers_iff (.inl ⟨rfl, rfl, nofun⟩), .inl ⟨through, rfl⟩⟩
    · exact ⟨sameAnswers_iff (.inl ⟨rfl, rfl, nofun⟩), .inr (.inl ⟨rfl, unmapped⟩)⟩
    · exact ⟨sameAnswers_iff (.inr ⟨f, _, rfl, unsaved⟩),
        .inr (.inr ⟨f, entries, tree, rfl, memory, treed, unsaved⟩)⟩
  · rcases remove_error_cases failed with
      ⟨rfl, unmapped, rfl⟩ | ⟨f, entries, rfl, memory, present, unsaved⟩
    · exact ⟨sameAnswers_iff (.inl ⟨rfl, rfl, nofun⟩), .inl ⟨rfl, unmapped⟩⟩
    · exact ⟨sameAnswers_iff (.inr ⟨f, _, rfl, unsaved⟩),
        .inr ⟨f, entries, rfl, memory, present, unsaved⟩⟩
  · intro kept b changed f unsaved
    rcases kept with keeps | ⟨bytes, read⟩
    · obtain ⟨files, saved, _⟩ := keeps.save (Json.obj changed).pretty.toUTF8
      have failed := unsaved.failed
      rw [saved] at failed
      cases failed
    · exact unsaved.before bytes read

/-- Before a directory a class fails to be put and stays in memory, and a class that extends itself
is refused with every answer as it was. -/
theorem failed_calls_change_nothing_unless_unsaved_before_directory :
    ∃ (a b c : Archive) (g h : Graph) (e : DiagramError),
      openAt ⟨⟨[(⟨.working 0, ["d"]⟩, .directory)]⟩, 0, ""⟩ (.ofText "d") = .ok a ∧
      parse ("class A" : String) = .ok g ∧ parse ("class A A extends A" : String) = .ok h ∧
      a.put "n" "class A" g = (.error (.file .isDirectory), b) ∧ ¬ SameAnswers a b ∧
      a.put "n" "class A A extends A" h = (.error (.diagram e), c) ∧ SameAnswers a c := by
  obtain ⟨host, a, rfl, opened, memory, _, unsavable⟩ := exists_openAt_of_directory
  obtain ⟨g, parsed⟩ : ∃ g, parse ("class A" : String) = .ok g :=
    exists_ok_of_isOk (by decide +kernel)
  obtain ⟨h, parsed'⟩ : ∃ h, parse ("class A A extends A" : String) = .ok h :=
    exists_ok_of_isOk (by decide +kernel)
  obtain ⟨tree, treed⟩ := exists_tree_of_backward parsed (by decide +kernel)
  obtain ⟨name, cyclic⟩ := exists_cycle_of_loop parsed' (by decide +kernel)
  obtain ⟨b, put⟩ := exists_put_of_unsavable memory treed unsavable "n" "class A"
  have refused := put_of_error (a := a) cyclic "n" "class A A extends A"
  obtain ⟨puts, _⟩ := failed_calls_change_nothing_unless_unsaved a "n"
  refine ⟨a, b, a, g, h, .cycle name, opened, parsed, parsed', put, ?_, refused, ?_⟩
  · exact fun same => (puts _ _ _ _ put).1.mp same _ rfl
  · exact (puts _ _ _ _ refused).1.mpr nofun

/-- Before a directory a class fails to be put, but it is found and counted. -/
theorem counted_but_not_saved : ∃ (a b : Archive) (g : Graph),
    openAt ⟨⟨[(⟨.working 0, ["d"]⟩, .directory)]⟩, 0, ""⟩ (.ofText "d") = .ok a ∧
    parse ("class A" : String) = .ok g ∧
    a.put "n" "class A" g = (.error (.file .isDirectory), b) ∧
    a.version = 0 ∧ b.version = 1 ∧ a.get? "n" = .ok none ∧
    ∃ entry, b.get? "n" = .ok (some entry) := by
  obtain ⟨host, a, rfl, opened, memory, version, unsavable⟩ := exists_openAt_of_directory
  obtain ⟨g, parsed⟩ : ∃ g, parse ("class A" : String) = .ok g :=
    exists_ok_of_isOk (by decide +kernel)
  obtain ⟨tree, treed⟩ := exists_tree_of_backward parsed (by decide +kernel)
  obtain ⟨b, put⟩ := exists_put_of_unsavable memory treed unsavable "n" "class A"
  rcases put_error_cases put with
    ⟨⟨_, ⟨⟩⟩, _⟩ | ⟨⟨⟩, _⟩ | ⟨f, entries, tree', _, memory', _, unsaved⟩
  rw [memory] at memory'
  cases memory'
  refine ⟨a, b, g, opened, parsed, put, version, ?_, ?_, ?_⟩
  · rw [unsaved.version, version]
  · simp only [Archive.get?, memory]
    rfl
  · exact ⟨_, by rw [unsaved.get?, Json.lookup_setMember_self]⟩

end ClassGraph.Archive
