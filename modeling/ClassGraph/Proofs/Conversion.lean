import ClassGraph.Proofs.Agreement
import ClassGraph.Proofs.Files.Saving

/-! # What a refused diagram leaves in the file

The converting command parses first, empties its file then, and makes the
document last. A text that is no diagram is refused before any file is touched.
One whose graph has a cycle is refused once the file is empty, so that what the
file held before is lost. Nothing else is lost: all other files are as they were.
-/

namespace ClassGraph

open Files (Path)

/-- At a path the same bytes can be read as before, or still none. -/
def FileTree.SameAt (before after : FileTree) (path : Path) : Prop :=
  ∀ bytes, after.read path = .ok bytes ↔ before.read path = .ok bytes

namespace Command.Convert

variable {files : FileTree} {args : List String} {stdin text : Text} {output : String} {g : Graph}
  {e : DiagramError}

/-- The arguments name a file for the document, and the diagram is to be made from a text. -/
def Asks (files : FileTree) (args : List String) (stdin : Text) (output : String)
    (text : Text) : Prop :=
  ∃ options positional, Arguments.read interface args = .given options positional ∧
    (requestOf options).output = output ∧ fetch files stdin (requestOf options) = .text text

theorem asks_output (plain : Arguments.IsPlain output) (lines : .scalar '\r' ∉ text)
    (files : FileTree) : Asks files ["--stdin", "--output", output] text output text :=
  ⟨_, _, read_output plain, rfl, congrArg Content.text (Text.unifyLineEnds_of_not_mem lines)⟩

theorem run_of_asks (h : Asks files args stdin output text) (named : output ≠ "") :
    run files args stdin = match parse text with
      | .error e => .reported files e.message
      | .ok g => save files output g := by
  obtain ⟨options, positional, given, rfl, fetched⟩ := h
  have full : (requestOf options).output.isEmpty = false := by
    simpa [String.isEmpty_iff] using named
  cases parsed : parse text with
  | error e => simp only [run, given, fetched, convert, parsed]
  | ok g => simp only [run, given, fetched, convert, parsed, full, Bool.false_eq_true, if_false]

/-- Writing the document of a graph with a cycle either fails before the file is opened, where no
file can be, or leaves the file empty. -/
theorem save_of_cycle (refused : g.toTree = .error e) (files : FileTree) (output : String) :
    (∃ emptied l, save files output g = .reported emptied e.message ∧
      files.Saves (.ofText output) .empty emptied l) ∨
    ∃ f after, save files output g = .crashed after (.file f) ∧
      files.save (.ofText output) .empty = (.error f, after) := by
  have document := Graph.document_of_toTree_error refused
  unfold save
  cases saved : files.save (.ofText output) .empty with
  | mk result after =>
    cases result with
    | error f => exact .inr ⟨f, after, by simp only [saved], rfl⟩
    | ok =>
      obtain ⟨l, saves⟩ := FileTree.exists_saves_of_save saved
      exact .inl ⟨after, l, by simp only [saved, document], saves⟩

end Command.Convert

open Command

/-- Converting a text that is refused leaves the file as it was if and only if the text is no
diagram, or nothing was lost by emptying the file. A text that is no diagram is refused with all
files as they were. The graph of a text that is refused later has a cycle; its file is empty then,
all other files are as they were, and what is new elsewhere is directories. Only where no file can
be read in the first place can the file fail to be opened; none can be read there then. -/
theorem refused_diagram_keeps_file_iff {files : FileTree} {args : List String}
    {stdin text : Text} {output : String} {e : DiagramError}
    (asks : Convert.Asks files args stdin output text) (named : output ≠ "")
    (refused : Refused text e) :
    let outcome := Convert.run files args stdin
    let path := Path.ofText output
    (parse text = .error e → outcome = .reported files e.message) ∧
    (∀ g, parse text = .ok g →
      (∃ i ∈ g.registry, ∃ j, Relation.ReflTransGen g.RelatesTo i j ∧
        Relation.TransGen g.RelatesTo j j ∧ e = .cycle (g.nameOf j)) ∧
      ((∃ emptied l, outcome = .reported emptied e.message ∧ emptied.read path = .ok .empty ∧
          files.Saves path .empty emptied l) ∨
        ∃ f after, outcome = .crashed after (.file f) ∧ files.SameAt after path ∧
          ∀ bytes, files.read path ≠ .ok bytes)) ∧
    (outcome.ending = .code 1 → (files.SameAt outcome.files path ↔
      parse text = .error e ∨ files.read path = .ok .empty)) := by
  have ran := Convert.run_of_asks asks named
  rcases refused with parsed | ⟨g, parsed, treed⟩ <;> rw [parsed] at ran
  · simp only [ran, parsed]
    exact ⟨fun _ => trivial, nofun, fun _ => ⟨fun _ => .inl trivial, fun _ _ => .rfl⟩⟩
  simp only [ran, parsed, reduceCtorEq, false_imp_iff, Except.ok.injEq, forall_eq', false_or,
    true_and]
  refine ⟨⟨Graph.exists_cycle_of_toTree treed, ?_⟩, ?_⟩ <;>
    rcases Convert.save_of_cycle treed files output with
      ⟨emptied, l, saved, saves⟩ | ⟨f, after, saved, stopped⟩ <;> rw [saved]
  · exact .inl ⟨emptied, l, rfl, saves.read.elim id id, saves⟩
  · obtain ⟨_, before, behind⟩ := FileTree.unreadable_of_save stopped
    exact .inr ⟨f, after, rfl, fun bytes => iff_of_false (behind bytes) (before bytes), before⟩
  · intro _
    have empty : emptied.read (.ofText output) = .ok .empty := saves.read.elim id id
    constructor
    · intro same
      exact (same _).mp empty
    · intro before bytes
      show emptied.read _ = _ ↔ _
      rw [empty, before]
  · nofun

/-- Before a file that holds something, a name that is not followed by a relation is refused with
all files as they were, and a class that extends itself with the file emptied. -/
theorem refused_diagram_keeps_file_iff_over_document : ∃ (files : FileTree) (e e' : DiagramError),
    let args := ["--stdin", "--output", "out.json"]
    let path := Path.ofText "out.json"
    let outcome := Convert.run files args ("class A A" : String)
    let outcome' := Convert.run files args ("class A A extends A" : String)
    files = ⟨[(⟨.working 0, ["out.json"]⟩, .file "old".toUTF8)]⟩ ∧
    outcome = .reported files e.message ∧ files.SameAt outcome.files path ∧
    outcome' = .reported outcome'.files e'.message ∧ ¬ files.SameAt outcome'.files path := by
  let files : FileTree := ⟨[(⟨.working 0, ["out.json"]⟩, .file "old".toUTF8)]⟩
  have held : files.read (.ofText "out.json") = .ok "old".toUTF8 := rfl
  have refused : (parse ("class A A" : String)).isOk = false := by decide +kernel
  obtain ⟨e, dangling⟩ : ∃ e, parse ("class A A" : String) = .error e := by
    cases h : parse ("class A A" : String) with
    | error e => exact ⟨e, rfl⟩
    | ok g =>
      rw [h] at refused
      cases refused
  obtain ⟨g, parsed⟩ : ∃ g, parse ("class A A extends A" : String) = .ok g :=
    exists_ok_of_isOk (by decide +kernel)
  obtain ⟨name, treed⟩ := exists_cycle_of_loop parsed (by decide +kernel)
  have asks (text : String) (lines : .scalar '\r' ∉ (text : Text)) :
      Convert.Asks files ["--stdin", "--output", "out.json"] text "out.json" text :=
    Convert.asks_output (by decide) lines files
  obtain ⟨reported, _, kept⟩ := refused_diagram_keeps_file_iff (asks _ (by decide)) (by decide)
    (.inl dangling)
  obtain ⟨_, emptied, lost⟩ := refused_diagram_keeps_file_iff (asks _ (by decide)) (by decide)
    (.inr ⟨g, parsed, treed⟩)
  have outcome := reported dangling
  obtain ⟨_, ⟨after, _, outcome', empty, _⟩ | ⟨_, _, _, _, unread⟩⟩ := emptied g parsed
  · refine ⟨files, e, .cycle name, rfl, outcome, ?_, ?_, ?_⟩
    · exact (kept (by rw [outcome]; rfl)).mpr (.inl dangling)
    · rw [outcome']
      rfl
    · rw [lost (by rw [outcome']; rfl), held, parsed]
      rintro (⟨⟨⟩⟩ | same)
      revert same
      decide +kernel
  · exact absurd held (unread _)

/-- A class that extends itself is refused, and the file that held something is empty. -/
theorem document_lost_to_cycle : ∃ (files : FileTree) (outcome : Outcome),
    files = ⟨[(⟨.working 0, ["out.json"]⟩, .file "old".toUTF8)]⟩ ∧
    outcome = Convert.run files ["--stdin", "--output", "out.json"]
      ("class A A extends A" : String) ∧
    outcome.ending = .code 1 ∧ outcome.stdout = "" ∧
    files.read (.ofText "out.json") = .ok "old".toUTF8 ∧
    outcome.files.read (.ofText "out.json") = .ok .empty := by
  let files : FileTree := ⟨[(⟨.working 0, ["out.json"]⟩, .file "old".toUTF8)]⟩
  have held : files.read (.ofText "out.json") = .ok "old".toUTF8 := rfl
  obtain ⟨g, parsed⟩ : ∃ g, parse ("class A A extends A" : String) = .ok g :=
    exists_ok_of_isOk (by decide +kernel)
  obtain ⟨name, treed⟩ := exists_cycle_of_loop parsed (by decide +kernel)
  have asks : Convert.Asks files ["--stdin", "--output", "out.json"]
      ("class A A extends A" : String) "out.json" ("class A A extends A" : String) :=
    Convert.asks_output (by decide) (by decide) files
  have ran := Convert.run_of_asks asks (by decide)
  rw [parsed] at ran
  rcases Convert.save_of_cycle treed files "out.json" with
    ⟨emptied, l, saved, saves⟩ | ⟨f, after, _, stopped⟩
  · have outcome := ran.trans saved
    refine ⟨files, _, rfl, rfl, ?_, ?_, held, ?_⟩ <;> rw [outcome]
    · rfl
    · rfl
    · exact saves.read.elim id id
  · exact absurd held ((FileTree.unreadable_of_save stopped).2.1 _)

end ClassGraph
