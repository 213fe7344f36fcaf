import ClassGraph.Command.Convert
import ClassGraph.Command.Inspect
import ClassGraph.Proofs.Document
import ClassGraph.Proofs.Files

/-! # What one command writes the other one reads

The document that the converting command leaves in a file is read back as the
graph that was parsed. What the other command shows of it is therefore what the
first would have printed, and its table is the table of the parsed graph.
-/

namespace ClassGraph

/-! ## Arguments -/

namespace Arguments

/-- An argument that does not begin with a dash. -/
def IsPlain (arg : String) : Prop := arg.toList.head? ≠ some '-'

instance (arg : String) : Decidable (IsPlain arg) := inferInstanceAs (Decidable (_ ≠ _))

variable {arg : String}

theorem IsPlain.ne_separator (h : IsPlain arg) : arg ≠ "--" := by
  rintro rfl
  exact h rfl

theorem IsPlain.understand (h : IsPlain arg) (forms : List Form) :
    understand forms arg = some (.plain arg) := by
  unfold Arguments.understand
  split
  · rename_i rest dash
    rw [IsPlain, dash] at h
    exact absurd rfl h
  · rfl

end Arguments

open Arguments (IsPlain)

namespace Command

variable {files : FileTree} {file heading : String} {source : Text} {g : Graph}
  {records : List Record}

theorem Convert.read_output (h : IsPlain file) :
    Arguments.read interface ["--stdin", "--output", file] =
      .given [⟨"--stdin", none⟩, ⟨"--output", some file⟩] none := by
  have stdin : Arguments.understand interface.forms "--stdin" =
      some (.option ⟨["--stdin"], .flag⟩ .nothing) := rfl
  have output : Arguments.understand interface.forms "--output" =
      some (.option ⟨["--output", "-o"], .value fun _ => true⟩ .nothing) := rfl
  simp only [Arguments.read, Arguments.understandAll, stdin, output, h.understand, h.ne_separator,
    String.reduceEq, if_false, Option.map_some]
  rfl

theorem Inspect.readRequest_show (h : IsPlain file) :
    readRequest false ["show", file] = .view file .document := by
  have name : Arguments.understand [Arguments.helpForm] "show" = some (.plain "show") := rfl
  simp only [readRequest, name, requestFor, Arguments.read, Arguments.understandAll, h.understand,
    h.ne_separator, String.reduceEq, if_false, if_true, Option.map_some]
  rfl

theorem Inspect.readRequest_table (h : IsPlain file) (h' : IsPlain heading)
    (full : heading ≠ "") :
    readRequest false ["table", file, "--name", heading] = .view file (.table heading) := by
  have name : Arguments.understand [Arguments.helpForm] "table" = some (.plain "table") := rfl
  have option : Arguments.understand tableInterface.forms "--name" =
      some (.option ⟨["--name"], .value fun _ => true⟩ .nothing) := rfl
  have given : Arguments.read tableInterface [file, "--name", heading] =
      .given [⟨"--name", some heading⟩] (some file) := by
    simp only [Arguments.read, Arguments.understandAll, h.understand, h'.understand, option,
      h.ne_separator, h'.ne_separator, String.reduceEq, if_false, Option.map_some]
    rfl
  have title : titleOf [⟨"--name", some heading⟩] file = heading := by
    have : heading.isEmpty = false := by simpa [String.isEmpty_iff] using full
    change (if heading.isEmpty then _ else heading) = heading
    simp only [this, Bool.false_eq_true, if_false]
  simp only [readRequest, name, requestFor, given, title, String.reduceEq, if_false, if_true]
  rfl

/-! ## Writing -/

theorem Convert.run_of_given {args : List String} {options : List Arguments.Given}
    {positional : Option String}
    (given : Arguments.read interface args = .given options positional)
    (stdin : (requestOf options).fromStdin = true) (source : Text) :
    run files args source = convert files (requestOf options) (Text.unifyLineEnds source) := by
  simp only [run, given, fetch, stdin, if_true]

theorem Convert.run_stdin (lines : .scalar '\r' ∉ source) (parsed : parse source = .ok g)
    (tree : g.toTree = .ok records) :
    run files ["--stdin"] source = .done files ((documentOf records).pretty ++ "\n") "" := by
  have document := Graph.document_of_toTree tree
  have given : Arguments.read interface ["--stdin"] = .given [⟨"--stdin", none⟩] none := rfl
  rw [run_of_given given rfl, Text.unifyLineEnds_of_not_mem lines]
  simp only [convert, parsed, document]
  rfl

/-- A document is written in full where a file can be kept. -/
theorem Convert.run_output (lines : .scalar '\r' ∉ source) (parsed : parse source = .ok g)
    (tree : g.toTree = .ok records) (h : IsPlain file) (writable : files.Writable file) :
    ∃ written, run files ["--stdin", "--output", file] source =
        .done written "" ("[plantuml] " ++ toString g.size ++ " class-like entities written to " ++
          file ++ "\n") ∧
      written.Stores (.ofText file) (documentOf records).pretty.toUTF8 := by
  have document := Graph.document_of_toTree tree
  obtain ⟨emptied, saved, stores⟩ := writable.keeps.save .empty
  obtain ⟨written, wrote, stores⟩ := stores.write (documentOf records).pretty.toUTF8
  have full : file.isEmpty = false := by simpa [String.isEmpty_iff] using writable.ne_empty
  refine ⟨written, ?_, stores⟩
  rw [run_of_given (read_output h) rfl, Text.unifyLineEnds_of_not_mem lines]
  change convert files ⟨"", file, true, some 0⟩ source = _
  simp only [convert, parsed, full, Bool.false_eq_true, if_false, Convert.save, saved, document,
    wrote]

/-! ## Reading -/

theorem ofDocument_documentOf (h : Graph.ofTree (treeToJson records) = .ok g) :
    Graph.ofDocument (documentOf records) = .ok g := by
  have entities : [(("schema_version" : Text), Json.str documentVersion),
      ("entities", treeToJson records)].lookup ("entities" : Text) = some (treeToJson records) :=
    rfl
  simp only [Graph.ofDocument, documentOf, entities, Option.getD_some, h]

/-- A file that holds the document of a graph is loaded as the graph. -/
theorem Inspect.loadGraph_of_stores (writable : files.Writable file) {written : FileTree}
    (stores : written.Stores (.ofText file) (documentOf records).pretty.toUTF8)
    (restorable : (documentOf records).Restorable)
    (back : Graph.ofTree (treeToJson records) = .ok g) : loadGraph written file = .ok g := by
  have content := stores.readAsWritten writable.taken writable.slash writable.point
    writable.ne_empty
  have text : Json.read (documentOf records).pretty = .ok (documentOf records) :=
    Json.read_write Json.loose_indented restorable
  simp only [loadGraph, content, Json.decodeText_pretty, text, ofDocument_documentOf back]

end Command

/-- The two commands agree on what is written between them. Where a diagram without cycles is
converted into a file, the file is shown as the document that is printed when no file is given, and
its table is that of the parsed graph. Nothing fails on the way, whatever the names are. -/
theorem converted_file_shows {source : Text} {g : Graph} {files : FileTree} {file heading : String}
    (lines : .scalar '\r' ∉ source) (joined : source.Joined) (parsed : parse source = .ok g)
    (acyclic : ∀ i ∈ g.registry, ¬ g.ReachesCycle i) (writable : files.Writable file)
    (plain : IsPlain file) (plain' : IsPlain heading) (named : heading ≠ "") :
    let converted := Command.Convert.run files ["--stdin", "--output", file] source
    let printed := Command.Convert.run files ["--stdin"] source
    converted.ending = .code 0 ∧ converted.stdout = "" ∧ printed.ending = .code 0 ∧
      Command.Inspect.run converted.files ["show", file] =
        .done converted.files printed.stdout "" ∧
      Command.Inspect.run converted.files ["table", file, "--name", heading] =
        .done converted.files (Table.render g heading ++ "\n") "" := by
  obtain ⟨records, tree⟩ : ∃ records, g.toTree = .ok records := Graph.exists_records_iff.mpr acyclic
  have textual := textual_documentOf Text.hereditary_joined
    (textual_of_parse Text.hereditary_joined joined parsed tree)
  have back : Graph.ofTree (treeToJson records) = .ok g := by
    obtain ⟨d, _, _, rfl, _⟩ := Builder.parsed parsed
    exact d.declared_graphBefore.ofTree_toTree tree
  obtain ⟨written, ran, stores⟩ := Command.Convert.run_output lines parsed tree plain writable
  have loaded := Command.Inspect.loadGraph_of_stores writable stores textual.restorable
    back
  simp only [ran, Command.Convert.run_stdin lines parsed tree]
  refine ⟨rfl, rfl, rfl, ?_, ?_⟩
  · simp only [Command.Inspect.run, Command.Inspect.readRequest_show plain, Command.Outcome.done,
      loaded, Command.Inspect.present, Graph.document_of_toTree tree]
  · simp only [Command.Inspect.run, Command.Inspect.readRequest_table plain plain' named,
      Command.Outcome.done, loaded, Command.Inspect.present]

/-- A name with a backslash, a bar and a character beyond the basic plane goes through a file in a
directory that is made for it, and so do two classes of one name. -/
theorem converted_file_shows_rare_name : ∃ (source : Text) (g : Graph) (files : FileTree),
    source = ("class \"a\\b 𝔘|\" class A class A extends \"a\\b 𝔘|\"" : String) ∧
    parse source = .ok g ∧ files = .empty ∧ files.Writable "out/x.json" ∧
    let converted := Command.Convert.run files ["--stdin", "--output", "out/x.json"] source
    let printed := Command.Convert.run files ["--stdin"] source
    converted.ending = .code 0 ∧ converted.stdout = "" ∧ printed.ending = .code 0 ∧
      Command.Inspect.run converted.files ["show", "out/x.json"] =
        .done converted.files printed.stdout "" ∧
      Command.Inspect.run converted.files ["table", "out/x.json", "--name", "N|1"] =
        .done converted.files (Table.render g "N|1" ++ "\n") "" := by
  let source : Text :=
    ("class \"a\\b 𝔘|\" class A class A extends \"a\\b 𝔘|\"" : String)
  obtain ⟨g, hg⟩ : ∃ g, parse source = .ok g := exists_ok_of_isOk (by decide +kernel)
  obtain ⟨records, tree⟩ := exists_tree_of_backward hg (by decide +kernel)
  have made : FileTree.empty.ensureDirectories (Files.Path.ofText "out/x.json").parent =
      (.ok (), ⟨[(⟨.working 0, ["out"]⟩, .directory)]⟩) := by
    rw [FileTree.ensureDirectories]; rfl
  have writable : FileTree.empty.Writable "out/x.json" :=
    ⟨rfl, by decide +kernel, by decide +kernel, _, ⟨.working 0, ["out", "x.json"]⟩, made,
      by decide +kernel, rfl, .inl (by decide +kernel)⟩
  exact ⟨source, _, .empty, rfl, hg, rfl, writable, converted_file_shows (by decide +kernel)
    (by decide +kernel) hg (Graph.exists_records_iff.mp ⟨records, tree⟩) writable (by decide)
    (by decide) (by decide)⟩

end ClassGraph
