import ClassGraph.Proofs.Artifact
import ClassGraph.Proofs.Consistency

/-! # Three front ends, one answer

A diagram can be given to the command, to the route that parses and to the route
that stores. Each of them parses first and makes the tree then, at places of its
own, so that an error of either stage comes out of all three with one message. The
tree that is printed is also the one that is answered and stored. Only the service
encodes what it answers: half a surrogate pair in a diagram is printed, but not
sent.
-/

namespace ClassGraph

open Files (Path)
open Json (setMember)

variable {source : Text} {g : Graph} {tree : List Record} {e : DiagramError}

/-! ## What a text is refused with -/

/-- A text is refused because it is no diagram, or because its graph has no tree. -/
def Refused (source : Text) (e : DiagramError) : Prop :=
  parse source = .error e ∨ ∃ g, parse source = .ok g ∧ g.toTree = .error e

theorem exists_tree_or_refused (source : Text) :
    (∃ g tree, parse source = .ok g ∧ g.toTree = .ok tree) ∨ ∃ e, Refused source e := by
  cases parsed : parse source with
  | error e => exact .inr ⟨e, .inl parsed⟩
  | ok g =>
    cases treed : g.toTree with
    | error e => exact .inr ⟨e, .inr ⟨g, parsed, treed⟩⟩
    | ok tree => exact .inl ⟨g, tree, rfl, treed⟩

theorem Refused.ne_ok (h : Refused source e) (parsed : parse source = .ok g) :
    g.toTree ≠ .ok tree := by
  intro treed
  rcases h with refused | ⟨g', parsed', refused⟩
  · cases parsed.symm.trans refused
  · cases parsed.symm.trans parsed'
    cases treed.symm.trans refused

theorem Refused.traces (h : Refused source e) {P : Text → Prop} (hereditary : Text.Hereditary P)
    (hs : P source) : e.Traces P := by
  rcases h with parsed | ⟨g, parsed, treed⟩
  · exact (traces_parse hereditary hs).2 e parsed
  · exact Graph.traces_of_toTree hereditary ((traces_parse hereditary hs).1 g parsed) treed

theorem Command.Convert.run_stdin_of_refused (lines : .scalar '\r' ∉ source)
    (h : Refused source e) (files : FileTree) :
    run files ["--stdin"] source = .reported files e.message := by
  have given : Arguments.read interface ["--stdin"] = .given [⟨"--stdin", none⟩] none := rfl
  rw [run_of_given given rfl, Text.unifyLineEnds_of_not_mem lines]
  rcases h with parsed | ⟨g, parsed, treed⟩
  · simp only [convert, parsed]
  · have document := Graph.document_of_toTree_error treed
    simp only [convert, parsed, document]
    rfl

namespace Service

variable {b c : Archive} {entries members : List (Text × Json)} {r : Request} {name : Json}

/-! ## What is sent -/

theorem send_tree (parsed : parse source = .ok g) (treed : g.toTree = .ok tree) :
    send (answer 200 (.obj [("entities", treeToJson tree)])) =
      sentIf (treeToJson tree).isEncodable (answer 200 (.obj [("entities", treeToJson tree)])) := by
  have textual : (treeToJson tree).Textual fun _ => True :=
    textual_of_parse Text.hereditary_true trivial parsed treed
  have digits : (Json.obj [("entities", treeToJson tree)]).hasDigitlessNumber = false := by
    refine Json.hasDigitlessNumber_obj.mpr (List.forall_mem_singleton.mpr ?_)
    exact textual.hasDigitlessNumber
  have encodable : (Json.obj [("entities", treeToJson tree)]).isEncodable =
      (treeToJson tree).isEncodable := by
    rw [Bool.eq_iff_iff, Json.isEncodable_obj, List.forall_mem_singleton]
    exact and_iff_right (Text.isEncodable_ofString _)
  rw [send_answer digits, encodable]

theorem send_badDiagram (e : DiagramError) :
    send (badDiagram e) = sentIf e.message.isEncodable (badDiagram e) := by
  simp only [badDiagram, refusal]
  rw [send_answer rfl]
  simp only [Json.isEncodable, Json.areEncodableMembers, Text.isEncodable_ofString,
    Bool.true_and, Bool.and_true]

/-! ## What is asked -/

/-- A request to parse a text. -/
structure Request.Asks (r : Request) (source : Text) : Prop where
  method : r.method = "POST"
  route : route? r.path.toList = some .parse
  source : textAt r.body "source" = some source

instance (r : Request) (source : Text) : Decidable (r.Asks source) :=
  decidable_of_iff (r.method = "POST" ∧ route? r.path.toList = some .parse ∧
      textAt r.body "source" = some source)
    ⟨fun h => ⟨h.1, h.2.1, h.2.2⟩, fun h => ⟨h.method, h.route, h.source⟩⟩

/-- A request to store a text under a name, which may be any value. -/
structure Request.Submits (r : Request) (name : Json) (source : Text) : Prop where
  method : r.method = "POST"
  route : route? r.path.toList = some .diagrams
  body : ∃ members, bodyMembers r.body = some members ∧ nameOf members = name ∧
    members.lookup ("source" : Text) = some (.str source)

theorem Request.Posts.submits {name : Text} (h : r.Posts name source) :
    r.Submits (.str name) source := by
  obtain ⟨members, body, named⟩ := lookup_of_textAt h.name
  obtain ⟨_, same, told⟩ := lookup_of_textAt h.source
  cases body.symm.trans same
  exact ⟨h.method, h.route, members, body, by rw [nameOf, named, Option.getD_some], told⟩

theorem readSource_of_refused (told : members.lookup ("source" : Text) = some (.str source))
    (full : Text.isBlankText source = false) (parsed : parse source = .error e) :
    readSource members = .error (badDiagram e) := by
  simp only [readSource, told, full, parsed, Bool.false_eq_true, if_false]

theorem readSource_of_parsed (told : members.lookup ("source" : Text) = some (.str source))
    (full : Text.isBlankText source = false) (parsed : parse source = .ok g) :
    readSource members = .ok (source, g) := by
  simp only [readSource, told, full, parsed, Bool.false_eq_true, if_false]

theorem handle_of_asks (asks : r.Asks source) (b : Archive) :
    handle b r = (send (parseDiagram r.body), b) := by
  simp only [handle, asks.route, serve, asks.method]
  rfl

theorem parseDiagram_of_tree (asks : r.Asks source) (full : Text.isBlankText source = false)
    (parsed : parse source = .ok g) (treed : g.toTree = .ok tree) :
    parseDiagram r.body = answer 200 (.obj [("entities", treeToJson tree)]) := by
  obtain ⟨members, body, told⟩ := lookup_of_textAt asks.source
  simp only [parseDiagram, body, readSource_of_parsed told full parsed, Graph.treeJson, treed,
    Except.map]

theorem parseDiagram_of_refused (asks : r.Asks source) (full : Text.isBlankText source = false)
    (h : Refused source e) : parseDiagram r.body = badDiagram e := by
  obtain ⟨members, body, told⟩ := lookup_of_textAt asks.source
  rcases h with parsed | ⟨g, parsed, treed⟩
  · simp only [parseDiagram, body, readSource_of_refused told full parsed]
  · simp only [parseDiagram, body, readSource_of_parsed told full parsed, Graph.treeJson, treed,
      Except.map]

theorem addDiagram_of_refused (submits : r.Submits name source)
    (named : name.isBlankValue = false) (full : Text.isBlankText source = false)
    (h : Refused source e) (b : Archive) : addDiagram b r.body = (.ok (badDiagram e), b) := by
  obtain ⟨members, body, rfl, told⟩ := submits.body
  rcases h with parsed | ⟨g, parsed, treed⟩
  · simp only [addDiagram, body, ← nameOf.eq_def, named, readSource_of_refused told full parsed,
      Bool.false_eq_true, if_false]
  · simp only [addDiagram, body, ← nameOf.eq_def, named, readSource_of_parsed told full parsed,
      Archive.put_of_error treed, Bool.false_eq_true, if_false]

theorem handle_of_submits_refused (submits : r.Submits name source)
    (named : name.isBlankValue = false) (full : Text.isBlankText source = false)
    (h : Refused source e) (b : Archive) : handle b r = (send (badDiagram e), b) := by
  simp only [handle, submits.route, serve, submits.method,
    addDiagram_of_refused submits named full h]
  rfl

theorem Request.Submits.exists_storable (submits : r.Submits name source)
    (named : name.isBlankValue = false) (full : Text.isBlankText source = false)
    (parsed : parse source = .ok g) (treed : g.toTree = .ok tree) :
    ∃ members, bodyMembers r.body = some members ∧ nameOf members = name ∧
      Storable members source g tree := by
  obtain ⟨members, body, rfl, told⟩ := submits.body
  exact ⟨members, body, rfl, named, told, full, parsed, treed⟩

theorem handle_of_submits (held : b.Held entries) (submits : r.Submits name source)
    (named : name.isBlankValue = false) (full : Text.isBlankText source = false)
    (parsed : parse source = .ok g) (treed : g.toTree = .ok tree) :
    let entry := Archive.entry name.display source tree (Archive.timestamp (b.ticks + 1))
    ∃ c, handle b r = (send (answer 201 entry), c) ∧
      Changes b c fun l => l.put name.display entry := by
  obtain ⟨members, body, rfl, storable⟩ := submits.exists_storable named full parsed treed
  obtain ⟨c, handled, commits⟩ := handle_of_storable held submits.method submits.route body storable
  exact ⟨c, handled, commits.put held⟩

theorem handle_of_submits_unmapped (unmapped : b.Unmapped) (submits : r.Submits name source)
    (named : name.isBlankValue = false) (full : Text.isBlankText source = false)
    (parsed : parse source = .ok g) (treed : g.toTree = .ok tree) :
    handle b r = (.error (.archive .notMutable), { b with ticks := b.ticks + 1 }) := by
  obtain ⟨members, body, rfl, storable⟩ := submits.exists_storable named full parsed treed
  simp only [handle, submits.route, serve, submits.method,
    addDiagram_of_unmapped unmapped body storable]
  rfl

/-- The command and the two routes agree on every text that is not blank. A text with a tree is
printed as a document whose entities are the tree, and the same tree is answered by the one route
and stored and answered by the other. A text without a tree is refused by all three with one error,
and the archive stays as it is. The service sends what it answers if that can be encoded, as it can
where the text, and the name that is stored, can be. Whatever the archive was opened with, only a
file that holds another value than a map keeps the one route from storing. -/
theorem front_ends_agree {host : Host} {path : Path} {a : Archive}
    (writable : host.files.Keeps path) (opened : Archive.openAt host path = .ok a)
    (requests : List Request) {source : Text} (lines : .scalar '\r' ∉ source)
    (full : Text.isBlankText source = false) {name : Json} (named : name.isBlankValue = false)
    {parsing storing : Request} (asks : parsing.Asks source)
    (submits : storing.Submits name source) (files : FileTree) :
    let b := afterRequests a requests
    let converted := Command.Convert.run files ["--stdin"] source
    (∃ g tree entry, parse source = .ok g ∧ g.toTree = .ok tree ∧
      converted = .done files ((documentOf tree).pretty ++ "\n") "" ∧
      (source.Joined → Json.read (documentOf tree).pretty = .ok (documentOf tree)) ∧
      (documentOf tree).get? "entities" = some (treeToJson tree) ∧
      handle b parsing = (sentIf (treeToJson tree).isEncodable
        (answer 200 (.obj [("entities", treeToJson tree)])), b) ∧
      entry = Archive.entry name.display source tree (Archive.timestamp (b.ticks + 1)) ∧
      entry.get? "entities" = some (treeToJson tree) ∧
      (source.isEncodable = true → (treeToJson tree).isEncodable = true) ∧
      ((∃ entries, a.diagrams = .obj entries) → ∃ c, handle b storing =
          (sentIf (name.display.isEncodable && source.isEncodable) (answer 201 entry), c) ∧
        Changes b c fun l => l.put name.display entry) ∧
      (a.Unmapped → handle b storing =
        (.error (.archive .notMutable), { b with ticks := b.ticks + 1 }))) ∨
    ∃ e, Refused source e ∧ converted = .reported files e.message ∧
      handle b parsing = (sentIf e.message.isEncodable (badDiagram e), b) ∧
      handle b storing = (sentIf e.message.isEncodable (badDiagram e), b) ∧
      (source.isEncodable = true → e.message.isEncodable = true) := by
  obtain ⟨g, tree, parsed, treed⟩ | ⟨e, refused⟩ := exists_tree_or_refused source
  · refine .inl ⟨g, tree, _, parsed, treed, Command.Convert.run_stdin lines parsed treed, ?_, rfl,
      ?_, rfl, rfl, ?_, ?_, ?_⟩
    · intro joined
      exact Json.read_write Json.loose_indented (textual_documentOf Text.hereditary_joined
        (textual_of_parse Text.hereditary_joined joined parsed treed)).restorable
    · rw [handle_of_asks asks, parseDiagram_of_tree asks full parsed treed, send_tree parsed treed]
    · intro encodable
      exact (textual_of_parse Text.hereditary_isEncodable encodable parsed treed).sendable.2
    · intro mapped
      obtain ⟨entries, memory⟩ := mapped
      obtain ⟨before, held⟩ :=
        held_afterRequests (Archive.held_of_openAt writable opened memory) requests
      obtain ⟨c, stored, changes⟩ := handle_of_submits held submits named full parsed treed
      exact ⟨c, by rw [stored, send_entry parsed treed], changes⟩
    · intro unmapped
      exact handle_of_submits_unmapped (unmapped_afterRequests unmapped requests) submits named full
        parsed treed
  · refine .inr ⟨e, refused, Command.Convert.run_stdin_of_refused lines refused files, ?_, ?_, ?_⟩
    · rw [handle_of_asks asks, parseDiagram_of_refused asks full refused, send_badDiagram]
    · rw [handle_of_submits_refused submits named full refused, send_badDiagram]
    · intro encodable
      exact DiagramError.isEncodable_message
        (refused.traces Text.hereditary_isEncodable encodable)

/-- A class is printed, answered and stored. A class that extends itself is refused three times. -/
theorem front_ends_agree_on_class_and_cycle : ∃ a : Archive,
    Archive.openAt ⟨.empty, 0, ""⟩ (.ofText "d.json") = .ok a ∧
    (∃ (source : Text) (parsing storing : Request) (tree : List Record) (entry : Json)
        (c : Archive), source = ("class A" : String) ∧
      parsing = ⟨"POST", "/api/parse", "\x7b\"source\": \"class A\"\x7d".toUTF8⟩ ∧
      storing = ⟨"POST", "/api/diagrams",
        "\x7b\"name\": \"n\", \"source\": \"class A\"\x7d".toUTF8⟩ ∧
      Command.Convert.run .empty ["--stdin"] source =
        .done .empty ((documentOf tree).pretty ++ "\n") "" ∧
      handle a parsing = (.ok (answer 200 (.obj [("entities", treeToJson tree)])), a) ∧
      handle a storing = (.ok (answer 201 entry), c) ∧
      entry.get? "entities" = some (treeToJson tree)) ∧
    ∃ (source : Text) (parsing storing : Request) (e : DiagramError),
      source = ("class A A extends A" : String) ∧
      parsing = ⟨"POST", "/api/parse",
        "\x7b\"source\": \"class A A extends A\"\x7d".toUTF8⟩ ∧
      storing = ⟨"POST", "/api/diagrams", ("\x7b\"name\": \"n\", " ++
        "\"source\": \"class A A extends A\"\x7d" : String).toUTF8⟩ ∧
      Command.Convert.run .empty ["--stdin"] source = .reported .empty e.message ∧
      handle a parsing = (.ok (badDiagram e), a) ∧ handle a storing = (.ok (badDiagram e), a) := by
  let host : Host := ⟨.empty, 0, ""⟩
  have writable : host.files.Keeps (.ofText "d.json") := keeps_empty
  obtain ⟨a, opened, settled⟩ := settled_of_absent writable rfl
  refine ⟨a, opened, ?_, ?_⟩
  · let source : Text := ("class A" : String)
    let parsing : Request :=
      ⟨"POST", "/api/parse", "\x7b\"source\": \"class A\"\x7d".toUTF8⟩
    let storing : Request := ⟨"POST", "/api/diagrams",
      "\x7b\"name\": \"n\", \"source\": \"class A\"\x7d".toUTF8⟩
    have asks : parsing.Asks source := by decide +kernel
    have posts : storing.Posts "n" source := by decide +kernel
    obtain ⟨g, parsed⟩ : ∃ g, parse source = .ok g := exists_ok_of_isOk (by decide +kernel)
    obtain ⟨_, treed⟩ := exists_tree_of_backward parsed (by decide +kernel)
    rcases front_ends_agree writable opened [] (by decide) (by decide) rfl asks posts.submits
        .empty with
      ⟨g, tree, entry, _, _, printed, _, _, answered, _, held, encodable, stores, _⟩ |
        ⟨e, refused, _⟩
    · obtain ⟨c, stored, _⟩ := stores ⟨[], settled.memory⟩
      rw [encodable (by decide)] at answered
      exact ⟨source, parsing, storing, tree, entry, c, rfl, rfl, rfl, printed, answered, stored,
        held⟩
    · exact absurd treed (refused.ne_ok parsed)
  · let source : Text := ("class A A extends A" : String)
    let parsing : Request := ⟨"POST", "/api/parse",
      "\x7b\"source\": \"class A A extends A\"\x7d".toUTF8⟩
    let storing : Request := ⟨"POST", "/api/diagrams", ("\x7b\"name\": \"n\", " ++
      "\"source\": \"class A A extends A\"\x7d" : String).toUTF8⟩
    have asks : parsing.Asks source := by decide +kernel
    have posts : storing.Posts "n" source := by decide +kernel
    have loops : ∀ g ∈ (parse source).toOption, 0 ∈ g.registry ∧ 0 ∈ (g.entity 0).targets := by
      decide +kernel
    rcases front_ends_agree writable opened [] (by decide) (by decide) rfl asks posts.submits
        .empty with
      ⟨g, tree, _, parsed, treed, _⟩ | ⟨e, _, reported, answered, stored, encodable⟩
    · obtain ⟨registered, loop⟩ := loops g (by rw [parsed]; rfl)
      have acyclic := Graph.exists_records_iff.mp ⟨tree, treed⟩ 0 registered
      exact absurd ⟨0, .refl, .single loop⟩ acyclic
    · rw [encodable (by decide)] at answered stored
      exact ⟨source, parsing, storing, e, rfl, rfl, rfl, reported, answered, stored⟩

/-- Half a surrogate pair in a comment: the diagram is printed, but the route that stores it has no
answer. -/
theorem printed_but_not_answered : ∃ (a : Archive) (source : Text) (storing : Request),
    source = Text.ofString "class A ' " ++ [.surrogate 0x480] ∧ .scalar '\r' ∉ source ∧
    Text.isBlankText source = false ∧ storing = ⟨"POST", "/api/diagrams",
      "\x7b\"name\": \"n\", \"source\": \"class A ' \\udc80\"\x7d".toUTF8⟩ ∧
    Archive.openAt ⟨.empty, 0, ""⟩ (.ofText "d.json") = .ok a ∧ storing.Posts "n" source ∧
    (∃ stdout, Command.Convert.run .empty ["--stdin"] source = .done .empty stdout "") ∧
    (handle a storing).1 = .error .unencodable := by
  let host : Host := ⟨.empty, 0, ""⟩
  let source : Text := Text.ofString "class A ' " ++ [.surrogate 0x480]
  let storing : Request := ⟨"POST", "/api/diagrams",
    "\x7b\"name\": \"n\", \"source\": \"class A ' \\udc80\"\x7d".toUTF8⟩
  have lines : .scalar '\r' ∉ source := by decide
  have full : Text.isBlankText source = false := by decide
  have posts : storing.Posts "n" source := by decide +kernel
  obtain ⟨a, opened, settled⟩ := settled_of_absent (show host.files.Keeps _ from keeps_empty) rfl
  obtain ⟨g, parsed⟩ : ∃ g, parse source = .ok g := exists_ok_of_isOk (by decide +kernel)
  obtain ⟨tree, treed⟩ := exists_tree_of_backward parsed (by decide +kernel)
  obtain ⟨c, stored, _⟩ := handle_of_submits settled.held posts.submits rfl full parsed treed
  refine ⟨a, source, storing, rfl, lines, full, rfl, opened, posts,
    ⟨_, Command.Convert.run_stdin lines parsed treed⟩, ?_⟩
  rw [stored, send_entry parsed treed]
  rfl

end Service

end ClassGraph
