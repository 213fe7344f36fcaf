import ClassGraph.Proofs.Artifact
import ClassGraph.Proofs.Recurrence

/-! # Which error of a diagram escapes the command that shows it

What is wrong with a tree is found while its file is loaded, and is reported. A
graph that was loaded has a table, whatever it is like. It has a document unless
it has a cycle, and the error that says so comes after loading: it is not
reported, and ends the command.
-/

namespace ClassGraph

theorem Tree.exists_ofTree_iff {records : List Json} :
    (∃ g, Graph.ofTree (.arr records) = .ok g) ↔
      ∀ value, value ∈ records ∨ Reached records value → ¬ Malformed value := by
  constructor
  · rintro ⟨g, imported⟩ value read
    exact not_malformed_of_ofTree imported read
  · intro formed
    cases h : Graph.ofTree (.arr records) with
    | ok g => exact ⟨g, rfl⟩
    | error e =>
      obtain ⟨fault, _, value, read, wrong⟩ := exists_of_ofTree_error h
      exact absurd ⟨fault, wrong⟩ (formed value read)

open ClassGraph.Tree (ComesTo Malformed Reached)

namespace Command.Inspect

variable {files : FileTree} {args : List String} {file : String} {view : View} {tree : Json}
  {g : Graph} {e : DiagramError} {outcome : Outcome}

/-- A file is read as a document with this tree. A document without one has no entities. -/
def Documents (files : FileTree) (file : String) (tree : Json) : Prop :=
  ∃ content text members, files.readAsWritten file = .ok content ∧
    decodeText content = some text ∧ Json.read text = .ok (.obj members) ∧
    tree = (members.lookup ("entities" : Text)).getD (.arr [])

theorem loadGraph_of_ofTree (documents : Documents files file tree)
    (imported : Graph.ofTree tree = .ok g) : loadGraph files file = .ok g := by
  obtain ⟨content, text, members, bytes, decoded, read, rfl⟩ := documents
  simp only [loadGraph, bytes, decoded, read, Graph.ofDocument, imported]

/-- What is wrong with the tree of a document is reported. -/
theorem loadGraph_of_ofTree_error (documents : Documents files file tree)
    (refused : Graph.ofTree tree = .error e) : loadGraph files file =
      .error (.reported files ("Cannot load " ++ file ++ ": " ++ e.message)) := by
  obtain ⟨content, text, members, bytes, decoded, read, rfl⟩ := documents
  simp only [loadGraph, bytes, decoded, read, Graph.ofDocument, refused]

theorem exists_documents_of_loadGraph (h : loadGraph files file = .ok g) :
    ∃ tree, Documents files file tree ∧ Graph.ofTree tree = .ok g := by
  unfold loadGraph at h
  split at h
  · cases h
  · cases h
  rename_i content bytes
  split at h
  · cases h
  rename_i text decoded
  split at h
  · cases h
  · cases h
  rename_i document read
  cases document with
  | obj members =>
    simp only [Graph.ofDocument] at h
    cases imported : Graph.ofTree ((members.lookup ("entities" : Text)).getD (.arr [])) with
    | error e =>
      rw [imported] at h
      cases h
    | ok g' =>
      rw [imported] at h
      cases h
      exact ⟨_, ⟨content, text, members, bytes, decoded, read, rfl⟩, imported⟩
  | _ => cases h

/-- No failure to load is an error of a diagram that escapes. -/
theorem ending_of_loadGraph_error (h : loadGraph files file = .error outcome) :
    outcome.ending ≠ .crash (.diagram e) := by
  have reported (message : Text) : (Outcome.reported files message).ending ≠ .crash (.diagram e) :=
    fun crash => Ending.noConfusion crash
  unfold loadGraph at h
  split at h
  · cases h
    exact nofun
  · cases h
    exact reported _
  split at h
  · cases h
    exact nofun
  split at h
  · cases h
    exact reported _
  · cases h
    exact nofun
  split at h
  · cases h
    exact nofun
  · cases h
    exact reported _
  · cases h

/-- The document of a graph without a tree is refused after it is loaded. -/
theorem run_of_toTree_error (asked : readRequest false args = .view file .document)
    (documents : Documents files file tree) (imported : Graph.ofTree tree = .ok g)
    (refused : g.toTree = .error e) : run files args = .crashed files (.diagram e) := by
  simp only [run, asked, loadGraph_of_ofTree documents imported, present,
    Graph.document_of_toTree_error refused]

/-- Only a document that is shown is refused in this way. -/
theorem exists_of_crash (h : (run files args).ending = .crash (.diagram e)) : ∃ file tree g,
    readRequest false args = .view file .document ∧ Documents files file tree ∧
      Graph.ofTree tree = .ok g ∧ g.toTree = .error e := by
  unfold run at h
  cases asked : readRequest false args with
  | help text =>
    rw [asked] at h
    cases h
  | refused =>
    rw [asked] at h
    cases h
  | view file view =>
    rw [asked] at h
    dsimp only at h
    cases loaded : loadGraph files file with
    | error outcome =>
      rw [loaded] at h
      exact absurd h (ending_of_loadGraph_error loaded)
    | ok g =>
      obtain ⟨tree, documents, imported⟩ := exists_documents_of_loadGraph loaded
      rw [loaded] at h
      cases view with
      | table title => cases h
      | document =>
        simp only [present, Graph.document] at h
        cases written : g.toTree with
        | ok records =>
          rw [written] at h
          cases h
        | error e' =>
          rw [written] at h
          cases h
          exact ⟨file, tree, g, rfl, documents, imported, written⟩

/-- A file may hold the document of a class that extends itself. -/
theorem exists_documents_of_loop : ∃ (files : FileTree) (loop : Record) (g : Graph),
    loop = .node .concrete "A" (.str "") [.node .concrete "A" (.str "") [] []] [] ∧
    files = ⟨[(⟨.working 0, ["c.json"]⟩, .file (documentOf [loop]).pretty.toUTF8)]⟩ ∧
    Documents files "c.json" (.arr [loop.toJson]) ∧
    Graph.ofTree (.arr [loop.toJson]) = .ok g ∧
    (∃ name, g.toTree = .error (.cycle name)) := by
  let inner : Record := .node .concrete "A" (.str "") [] []
  let loop : Record := .node .concrete "A" (.str "") [inner] []
  let content : ByteArray := (documentOf [loop]).pretty.toUTF8
  let files : FileTree := ⟨[(⟨.working 0, ["c.json"]⟩, .file content)]⟩
  let g₀ : Graph := ⟨#[⟨"A", .str "", .concrete, [], []⟩], [0]⟩
  let g : Graph := ⟨#[⟨"A", .str "", .concrete, [0], []⟩], [0]⟩
  have named : Text.Joined "A" := by decide
  have placed : Text.Joined "" := by decide
  have inside : inner.toJson.Textual Text.Joined :=
    Record.textual_node Text.hereditary_joined named placed (.arr nofun) (.arr nofun)
  have textual : (treeToJson [loop]).Textual Text.Joined :=
    .arr (List.forall_mem_singleton.mpr (Record.textual_node Text.hereditary_joined named placed
      (.arr (List.forall_mem_singleton.mpr inside)) (.arr nofun)))
  have documents : Documents files "c.json" (treeToJson [loop]) := by
    have stores : files.Stores (.ofText "c.json") content :=
      ⟨⟨.working 0, ["c.json"]⟩, ⟨rfl, rfl, .inr ⟨content, rfl⟩⟩, rfl⟩
    have bytes := stores.readAsWritten (by decide +kernel) (by decide +kernel) (by decide +kernel)
      (by decide)
    refine ⟨content, _, [("schema_version", .str documentVersion), ("entities", treeToJson [loop])],
      bytes, Json.decodeText_pretty _, ?_, rfl⟩
    exact Json.read_write Json.loose_indented
      (textual_documentOf Text.hereditary_joined textual).restorable
  have bound : Tree.BindsAll g₀ [inner.toJson] g₀ [0] :=
    .found (Tree.unpack_toJson _)
      (by simp [Tree.denoted?, g₀, inner, Record.body, Record.bare, Graph.entity, Json.same]) .nil
  have attached : Tree.attachAll g₀ 0 [loop.body] = .ok g :=
    Tree.attachAll_cons_eq_ok_iff.mpr
      ⟨g₀, [0], g₀, [], bound.bindAll_eq, Tree.BindsAll.nil.bindAll_eq, rfl⟩
  have imported : Graph.ofTree (treeToJson [loop]) = .ok g :=
    Tree.ofTree_eq_ok_iff.mpr ⟨_, [loop.body], rfl, Tree.unpackAll_map [loop], attached⟩
  have related : g.RelatesTo 0 0 := by
    show 0 ∈ (g.entity 0).targets
    decide
  exact ⟨files, loop, g, rfl, rfl, documents, imported,
    Graph.toTree_of_reachesCycle List.mem_cons_self ⟨0, .refl, .single related⟩⟩

/-- An error of a diagram escapes exactly where a document is to be shown in which nothing that is
read is malformed and a record at the top comes back to itself. It is the error of a cycle then, and
nothing is printed. Every other error of a diagram is found while the file is loaded, and reported;
the table of what was loaded is always printed, and the document unless there is a cycle. -/
theorem diagram_error_escapes_iff (files : FileTree) (args : List String) :
    ((∃ e, (run files args).ending = .crash (.diagram e)) ↔ ∃ file records,
      readRequest false args = .view file .document ∧ Documents files file (.arr records) ∧
      (∀ value, value ∈ records ∨ Reached records value → ¬ Malformed value) ∧
      ∃ i, Relation.TransGen (ComesTo records) i i) ∧
    (∀ e, (run files args).ending = .crash (.diagram e) → ∃ file g i,
      loadGraph files file = .ok g ∧ Relation.TransGen g.RelatesTo i i ∧
      run files args = .crashed files (.diagram (.cycle (g.nameOf i)))) ∧
    ∀ file view tree, readRequest false args = .view file view → Documents files file tree →
      (∀ e, Graph.ofTree tree = .error e → run files args =
        .reported files ("Cannot load " ++ file ++ ": " ++ e.message)) ∧
      ∀ g, Graph.ofTree tree = .ok g →
        (∀ title, view = .table title →
          run files args = .done files (Table.render g title ++ "\n") "") ∧
        (view = .document → ∀ records, g.toTree = .ok records →
          run files args = .done files ((documentOf records).pretty ++ "\n") "") := by
  refine ⟨⟨?_, ?_⟩, ?_, fun file view tree asked documents => ⟨fun e refused => ?_,
    fun g imported => ⟨?_, ?_⟩⟩⟩
  · rintro ⟨e, escaped⟩
    obtain ⟨file, tree, g, asked, documents, imported, refused⟩ := exists_of_crash escaped
    obtain ⟨records, _, rfl, _⟩ := Tree.ofTree_eq_ok_iff.mp imported
    obtain ⟨name, rfl⟩ := Graph.cycle_of_records refused
    exact ⟨file, records, asked, documents, Tree.exists_ofTree_iff.mp ⟨g, imported⟩,
      (Tree.exists_cycle_iff imported).mp ⟨name, refused⟩⟩
  · rintro ⟨file, records, asked, documents, formed, round⟩
    obtain ⟨g, imported⟩ := Tree.exists_ofTree_iff.mpr formed
    obtain ⟨name, refused⟩ := (Tree.exists_cycle_iff imported).mpr round
    exact ⟨_, by rw [run_of_toTree_error asked documents imported refused]; rfl⟩
  · intro e escaped
    obtain ⟨file, tree, g, asked, documents, imported, refused⟩ := exists_of_crash escaped
    obtain ⟨_, _, i, _, cycle, rfl⟩ := Graph.exists_cycle_of_toTree refused
    exact ⟨file, g, i, loadGraph_of_ofTree documents imported, cycle,
      run_of_toTree_error asked documents imported refused⟩
  · simp only [run, asked, loadGraph_of_ofTree_error documents refused]
  · rintro title rfl
    simp only [run, asked, loadGraph_of_ofTree documents imported, present]
  · rintro rfl records written
    simp only [run, asked, loadGraph_of_ofTree documents imported, present,
      Graph.document_of_toTree written]

/-- A class that extends itself cannot be shown, and its table is printed. -/
theorem diagram_error_escapes_iff_loop : ∃ (files : FileTree) (loop : Record) (g : Graph),
    loop = .node .concrete "A" (.str "") [.node .concrete "A" (.str "") [] []] [] ∧
    files = ⟨[(⟨.working 0, ["c.json"]⟩, .file (documentOf [loop]).pretty.toUTF8)]⟩ ∧
    Graph.ofTree (.arr [loop.toJson]) = .ok g ∧
    (∃ i, Relation.TransGen (ComesTo [loop.toJson]) i i) ∧
    (∃ e, (run files ["show", "c.json"]).ending = .crash (.diagram e)) ∧
    run files ["table", "c.json", "--name", "N"] =
      .done files (Table.render g "N" ++ "\n") "" := by
  obtain ⟨files, loop, g, hl, hf, documents, imported, cyclic⟩ := exists_documents_of_loop
  have round := (Tree.exists_cycle_iff imported).mp cyclic
  have shown : readRequest false ["show", "c.json"] = .view "c.json" .document :=
    readRequest_show (by decide)
  have table : readRequest false ["table", "c.json", "--name", "N"] =
      .view "c.json" (.table "N") := readRequest_table (by decide) (by decide) (by decide)
  refine ⟨files, loop, g, hl, hf, imported, round, ?_, ?_⟩
  · exact (diagram_error_escapes_iff files ["show", "c.json"]).1.mpr ⟨_, _, shown, documents,
      Tree.exists_ofTree_iff.mp ⟨g, imported⟩, round⟩
  · obtain ⟨_, prints⟩ := (diagram_error_escapes_iff files _).2.2 _ _ _ table documents
    exact (prints g imported).1 _ rfl

/-- The command that shows a class that extends itself ends with an error that is not reported. -/
theorem cycle_escapes_show : ∃ (files : FileTree) (loop : Record) (name : Text),
    loop = .node .concrete "A" (.str "") [.node .concrete "A" (.str "") [] []] [] ∧
    files = ⟨[(⟨.working 0, ["c.json"]⟩, .file (documentOf [loop]).pretty.toUTF8)]⟩ ∧
    run files ["show", "c.json"] = .crashed files (.diagram (.cycle name)) := by
  obtain ⟨files, loop, g, hl, hf, documents, imported, name, cyclic⟩ := exists_documents_of_loop
  exact ⟨files, loop, name, hl, hf,
    run_of_toTree_error (readRequest_show (by decide)) documents imported cyclic⟩

end Command.Inspect

end ClassGraph
