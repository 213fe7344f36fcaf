import ClassGraph.Proofs.Diagram.Described
import ClassGraph.Proofs.Reading
import ClassGraph.Proofs.Spelling

/-! # Every diagram can be written

Declarations and edges are written one on a line, with all names in quotation
marks. The text is read back as it is meant, whatever the names are: what looks
like a comment, a keyword, an arrow or a brace means nothing inside of quotation
marks. A declaration opens its packages on its own line and closes them there, so
that every line is read in a state in which no package is open.
-/

namespace ClassGraph

open Text

/-! ## Lines of words -/

namespace Token

/-- A space, a line feed or the end of the text follows. -/
def AtSpace (cs : Text) : Prop :=
  cs = [] ∨ ∃ rest, cs = .scalar ' ' :: rest ∨ cs = .scalar '\n' :: rest

/-- A form that can be written as a word: it is recognized in front of a space. -/
structure Word (f : Form) : Prop where
  continues : f.1 ≠ .finish
  recognized : ∀ rest, AtSpace rest → recognize (f.2 ++ rest) = some (f.1, f.2.length)

/-- The words of a line, with spaces between them. -/
def writeLine (line : List Form) : Text := join " " (line.map Prod.snd)

/-- Lines with line feeds between them, and what stands behind the last one. -/
def writeLines (lines : List (List Form)) (last : Text) : Text :=
  join "\n" (lines.map writeLine) ++ last

theorem writeLine_singleton (f : Form) : writeLine [f] = f.2 := by
  unfold writeLine join
  rw [List.map_cons, List.map_nil, List.intercalate_singleton]

theorem writeLine_cons_cons (f g : Form) (line : List Form) :
    writeLine (f :: g :: line) = f.2 ++ .scalar ' ' :: writeLine (g :: line) := by
  unfold writeLine join
  rw [List.map_cons, List.map_cons, List.intercalate_cons_cons, List.append_assoc]; rfl

theorem writeLines_singleton (line : List Form) (last : Text) :
    writeLines [line] last = writeLine line ++ last := by
  unfold writeLines join
  rw [List.map_cons, List.map_nil, List.intercalate_singleton]

theorem writeLines_cons_cons (line next : List Form) (lines : List (List Form)) (last : Text) :
    writeLines (line :: next :: lines) last =
      writeLine line ++ .scalar '\n' :: writeLines (next :: lines) last := by
  unfold writeLines join
  rw [List.map_cons, List.map_cons, List.intercalate_cons_cons, List.append_assoc,
    List.append_assoc]; rfl

theorem Spells.blank {forms : List Form} {source : Text} (h : Spells forms source) {c : CodePoint}
    (hc : isBlank c = true) : Spells forms (c :: source) := h.gap (.blank hc .nil)

theorem Spells.word {forms : List Form} {rest : Text} (h : Spells forms rest) {f : Form}
    (hf : Word f) (space : AtSpace rest) : Spells (f :: forms) (f.2 ++ rest) :=
  @Spells.token [] f.2 rest f.1 forms .nil (hf.recognized rest space) hf.continues h

theorem Spells.line {forms : List Form} {rest : Text} (h : Spells forms rest)
    (space : AtSpace rest) {line : List Form} (hl : ∀ f ∈ line, Word f) :
    Spells (line ++ forms) (writeLine line ++ rest) := by
  induction line with
  | nil => exact h
  | cons f line ih =>
    have hf := hl f List.mem_cons_self
    have others := ih fun g hg => hl g (List.mem_cons_of_mem _ hg)
    cases line with
    | nil =>
      rw [writeLine_singleton]
      exact h.word hf space
    | cons g line =>
      rw [writeLine_cons_cons, List.append_assoc, List.cons_append]
      exact (others.blank isBlank_space).word hf (.inr ⟨_, .inl rfl⟩)

theorem spells_writeLines {lines : List (List Form)} (hl : ∀ line ∈ lines, ∀ f ∈ line, Word f)
    {last : Text} (h : last = [] ∨ last = ("\n" : Text)) :
    Spells (lines.flatten ++ [(.finish, [])]) (writeLines lines last) := by
  have ending : Spells [(.finish, [])] last := by
    rcases h with rfl | rfl
    · exact .stop .nil
    · exact .stop (.blank isBlank_newline .nil)
  have space : AtSpace last := by
    rcases h with rfl | rfl
    · exact .inl rfl
    · exact .inr ⟨[], .inr rfl⟩
  induction lines with
  | nil => exact ending
  | cons line lines ih =>
    have words := hl line List.mem_cons_self
    have others := ih fun l hm => hl l (List.mem_cons_of_mem _ hm)
    cases lines with
    | nil =>
      rw [List.flatten_cons, List.flatten_nil, List.append_nil, writeLines_singleton]
      exact ending.line space words
    | cons next lines =>
      rw [writeLines_cons_cons, List.flatten_cons, List.append_assoc]
      exact (others.blank isBlank_newline).line (.inr ⟨_, .inr rfl⟩) words

/-! ## The words that occur -/

/-- A text that may stand between quotation marks. -/
def Quotable (name : Text) : Prop := .scalar '"' ∉ name ∧ .scalar '\n' ∉ name

instance (name : Text) : Decidable (Quotable name) := inferInstanceAs (Decidable (_ ∧ _))

/-- A name between quotation marks. -/
def naming (name : Text) : Form := (.name, ("\"" : Text) ++ name ++ ("\"" : Text))

theorem word_naming {name : Text} (h : Quotable name) : Word (naming name) where
  continues := nofun
  recognized := by
    intro rest _
    refine recognize_of_quotedRule (quotedRule_eq_some_iff.mpr ⟨name, rest, rfl, ?_, h⟩)
    show (("\"" : Text) ++ name ++ ("\"" : Text)).length = _
    rw [List.length_append, List.length_append, Nat.add_comm _ name.length]; rfl

theorem kind_of_form {t : Token} {f : Form} (h : t.form = f) : t.kind = f.1 := congrArg Prod.fst h

theorem text_of_form {t : Token} {f : Form} (h : t.form = f) : t.text = f.2 := congrArg Prod.snd h

theorem value_of_naming {t : Token} {name : Text} (h : t.form = naming name) : t.value = name := by
  have hk : t.kind = .name := kind_of_form h
  have ht : t.text = .scalar '"' :: (name ++ ("\"" : Text)) := text_of_form h
  have last : (name ++ ("\"" : Text)).getLast? = some (.scalar '"') := List.getLast?_concat ..
  unfold Token.value unquote?
  rw [if_pos hk, ht]
  simp only [last, if_true, Option.getD_some]
  exact List.dropLast_concat

/-- The keyword of a declaration, as it is written. -/
def declaring (kind : EntityKind) : Form := (.declare kind, kind.tag)

theorem word_declaring (kind : EntityKind) : Word (declaring kind) where
  continues := nofun
  recognized := by
    intro rest h
    rcases h with rfl | ⟨tail, rfl | rfl⟩ <;> cases kind <;> rfl

def opening : Form := (.openBrace, "\x7b")

def closing : Form := (.closeBrace, "\x7d")

def packaging : Form := (.package, "package")

theorem word_opening : Word opening := ⟨nofun, fun _ _ => rfl⟩

theorem word_closing : Word closing := ⟨nofun, fun _ _ => rfl⟩

theorem word_packaging : Word packaging where
  continues := nofun
  recognized := by
    intro rest h
    rcases h with rfl | ⟨tail, rfl | rfl⟩ <;> rfl

/-- The arrow of a relation: its head points at the target. -/
def pointing : Relation → Form
  | .inherits => (.arrow .right, "--|>")
  | .realizes => (.arrow .right, "..|>")

theorem word_pointing (relation : Relation) : Word (pointing relation) where
  continues := by cases relation <;> nofun
  recognized := by
    intro rest h
    cases relation <;> rfl

theorem relation_of_pointing (relation : Relation) :
    (Arrow.family .right (pointing relation).2).relation? = some relation := by
  cases relation <;> decide +kernel

end Token

/-! ## Diagrams to be written -/

/-- An entity to be declared in some packages, the outermost first. -/
structure Entry where
  kind : EntityKind
  name : Text
  packages : List Text

def Entry.declaration (e : Entry) : Declaration := ⟨e.kind, e.name, join "/" e.packages⟩

/-- A declaration within its packages. -/
def Entry.nest (kind : EntityKind) (name : Text) : List Text → List Token.Form
  | [] => [Token.declaring kind, Token.naming name]
  | package :: packages =>
    [Token.packaging, Token.naming package, Token.opening] ++ nest kind name packages ++
      [Token.closing]

def Entry.line (e : Entry) : List Token.Form := nest e.kind e.name e.packages

/-- A relation between two names. -/
def Edge.line (names : List Text) (e : Edge) : List Token.Form :=
  [Token.naming (names.getD e.child []), Token.pointing e.relation,
    Token.naming (names.getD e.target [])]

/-- A place in a list that holds something for the first time. -/
def IsFirst (names : List Text) (i : Nat) : Prop := names.findIdx? (· == names.getD i []) = some i

instance (names : List Text) (i : Nat) : Decidable (IsFirst names i) :=
  inferInstanceAs (Decidable (_ = _))

/-- Entities in order and edges between them. A name stands for the first entity
of the name, so only first ones can be related. -/
structure Draft where
  entries : List Entry
  edges : List Edge
  quotable : ∀ e ∈ entries, Token.Quotable e.name ∧ ∀ package ∈ e.packages, Token.Quotable package
  first : ∀ e ∈ edges, IsFirst (entries.map Entry.name) e.child ∧
    IsFirst (entries.map Entry.name) e.target

namespace Draft

def lines (draft : Draft) : List (List Token.Form) :=
  draft.entries.map Entry.line ++ draft.edges.map (Edge.line (draft.entries.map Entry.name))

/-- The entities on a line each, then the edges on a line each. -/
def write (draft : Draft) (last : Text) : Text := Token.writeLines draft.lines last

end Draft

theorem Frame.path_packages (packages : List Text) :
    path (packages.map package).reverse = join "/" packages := by
  unfold path
  rw [filterMap_packages]

namespace Builder

open Token

/-- Between two lines: no name waits, and the forms ahead, the frames that are
open and the graph are known. -/
structure Ready (b : Builder) (forms : List Form) (frames : List Frame) (g : Graph) : Prop where
  ahead : b.feed.ahead.map form = forms
  free : b.pending = none
  encloses : b.Encloses frames
  graph : b.graph = g

variable {b : Builder} {forms rest : List Form} {frames : List Frame} {g : Graph}

theorem exists_next {f : Form} (h : b.feed.ahead.map form = f :: forms) :
    ∃ t, b.next? = some t ∧ t.form = f ∧ (b.pass t).feed.ahead.map form = forms := by
  obtain ⟨t, ts, ht, hf, rest⟩ := List.map_eq_cons_iff.mp h
  refine ⟨t, ?_, hf, ?_⟩
  · rw [next?, ht]; rfl
  · rw [pass, ht]; exact rest

/-- A declaration is read in the packages around it, and these are closed again. -/
theorem Ready.nest {kind : EntityKind} {name : Text} {packages : List Text}
    (h : b.Ready (Entry.nest kind name packages ++ rest) frames g) :
    ∃ b', Reaches b b' ∧ b'.Ready rest frames (g.declare ⟨name,
      .str (Frame.path ((packages.map Frame.package).reverse ++ frames)), kind, [], []⟩) := by
  induction packages generalizing b rest frames g with
  | nil =>
    obtain ⟨keyword, next, hk, ahead⟩ := exists_next h.ahead
    obtain ⟨t, next', ht, ahead⟩ := exists_next ahead
    have step := Reads.declaration h.free next (kind_of_form hk) next' (kind_of_form ht)
    refine ⟨_, .single step.proceeds, ahead, h.free, ?_, ?_⟩
    · exact ⟨h.encloses.packages, h.encloses.depth⟩
    · rw [value_of_naming ht, h.graph, h.encloses.currentPackage]; rfl
  | cons package packages ih =>
    have ahead := h.ahead
    rw [Entry.nest, List.append_assoc, List.append_assoc] at ahead
    obtain ⟨keyword, next, hk, ahead⟩ := exists_next ahead
    obtain ⟨t, next', ht, ahead⟩ := exists_next ahead
    obtain ⟨brace, next'', hb, ahead⟩ := exists_next ahead
    have step := Reads.package h.free next (kind_of_form hk) next' (kind_of_form ht)
      next'' (kind_of_form hb)
    rw [value_of_naming ht] at step
    have inner : (((((b.pass keyword).pass t).pass brace).enter package).Ready
        (Entry.nest kind name packages ++ (closing :: rest)) (.package package :: frames) g) :=
      ⟨ahead, h.free, (h.encloses.pass _ |>.pass _ |>.pass _).enter package, h.graph⟩
    obtain ⟨m, run, hm⟩ := ih inner
    obtain ⟨close, next, hc, ahead⟩ := exists_next hm.ahead
    have last := Reads.closeBrace hm.free next (kind_of_form hc)
    refine ⟨_, (Relation.ReflTransGen.head step.proceeds run).tail last.proceeds, ?_, ?_, ?_, ?_⟩
    · rw [feed_closeBrace]; exact ahead
    · rw [closeBrace_eq]; exact hm.free
    · exact (hm.encloses.pass close).closeBrace
    · rw [closeBrace_eq]
      rw [List.map_cons, List.reverse_cons, List.append_assoc]
      exact hm.graph

theorem Ready.edge {left right : Text} {relation : Relation} {child target : Nat}
    (h : b.Ready ([naming left, pointing relation, naming right] ++ rest) frames g)
    (hc : g.find? left = some child) (ht : g.find? right = some target) :
    ∃ b', Reaches b b' ∧ b'.Ready rest frames (g.draw ⟨child, relation, target⟩) := by
  obtain ⟨l, next, hl, ahead⟩ := exists_next h.ahead
  obtain ⟨arrow, next', ha, ahead⟩ := exists_next ahead
  obtain ⟨r, next'', hr, ahead⟩ := exists_next ahead
  have first := Reads.name h.free next (kind_of_form hl)
  have side : arrow.kind = .arrow .right := by
    rw [kind_of_form ha]; cases relation <;> rfl
  have family : (Arrow.family .right arrow.text).relation? = some relation := by
    rw [text_of_form ha]; exact relation_of_pointing relation
  have second := Reads.arrow (b := { b.pass l with pending := some l }) next' side rfl
    (kind_of_form hl) family (by rw [value_of_naming hl]; exact h.graph ▸ hc) next''
    (kind_of_form hr) (by rw [value_of_naming hr]; exact h.graph ▸ ht)
  refine ⟨_, (Relation.ReflTransGen.single first.proceeds).tail second.proceeds, ahead, rfl, ?_, ?_⟩
  · exact ⟨h.encloses.packages, h.encloses.depth⟩
  · rw [← h.graph]; rfl

/-- All entities are declared, each in its own packages. -/
theorem Ready.entries {entries : List Entry} {ds : List Declaration}
    (h : b.Ready ((entries.map Entry.line).flatten ++ rest) [] (.described ds [])) :
    ∃ b', Reaches b b' ∧
      b'.Ready rest [] (.described (ds ++ entries.map Entry.declaration) []) := by
  induction entries generalizing b ds with
  | nil => exact ⟨b, .refl, by rw [List.map_nil, List.append_nil]; exact h⟩
  | cons e entries ih =>
    rw [List.map_cons, List.flatten_cons, List.append_assoc] at h
    obtain ⟨m, run, hm⟩ := h.nest
    have declared : Graph.described (ds ++ [e.declaration]) [] = _ :=
      Graph.described_declare (by intro _ he; cases he)
    rw [List.append_nil, Frame.path_packages] at hm
    have hm : m.Ready ((entries.map Entry.line).flatten ++ rest) []
        (.described (ds ++ [e.declaration]) []) := declared ▸ hm
    obtain ⟨b', run', hb'⟩ := ih hm
    rw [List.append_assoc] at hb'
    exact ⟨b', run.trans run', hb'⟩

theorem find?_of_isFirst {ds : List Declaration} {i : Nat}
    (h : IsFirst (ds.map Declaration.name) i) (es : List Edge) :
    (Graph.described ds es).find? ((ds.map Declaration.name).getD i []) = some i := by
  rw [Graph.find?_described]
  unfold IsFirst at h
  rw [List.findIdx?_map] at h
  exact h

/-- All edges are drawn, each between the first entities of its names. -/
theorem Ready.edges {edges es : List Edge} {ds : List Declaration}
    (first : ∀ e ∈ edges, IsFirst (ds.map Declaration.name) e.child ∧
      IsFirst (ds.map Declaration.name) e.target)
    (h : b.Ready ((edges.map (Edge.line (ds.map Declaration.name))).flatten ++ rest) []
      (.described ds es)) :
    ∃ b', Reaches b b' ∧ b'.Ready rest [] (.described ds (es ++ edges)) := by
  induction edges generalizing b es with
  | nil => exact ⟨b, .refl, by rw [List.append_nil]; exact h⟩
  | cons e edges ih =>
    rw [List.map_cons, List.flatten_cons, List.append_assoc] at h
    obtain ⟨child, target⟩ := first e List.mem_cons_self
    obtain ⟨m, run, hm⟩ := h.edge (find?_of_isFirst child es) (find?_of_isFirst target es)
    have drawn := Graph.described_relate es ds e
    have hm : m.Ready ((edges.map (Edge.line (ds.map Declaration.name))).flatten ++ rest) []
        (.described ds (es ++ [e])) := drawn ▸ hm
    obtain ⟨b', run', hb'⟩ := ih (fun f hf => first f (List.mem_cons_of_mem _ hf)) hm
    rw [List.append_assoc] at hb'
    exact ⟨b', run.trans run', hb'⟩

end Builder

namespace Draft

open Token

theorem word_of_mem_nest {kind : EntityKind} {name : Text} {packages : List Text}
    (hn : Quotable name) (hp : ∀ package ∈ packages, Quotable package) :
    ∀ f ∈ Entry.nest kind name packages, Word f := by
  induction packages with
  | nil =>
    simp only [Entry.nest, List.mem_cons, List.not_mem_nil, or_false]
    rintro f (rfl | rfl)
    · exact word_declaring kind
    · exact word_naming hn
  | cons package packages ih =>
    have inner := ih fun p h => hp p (List.mem_cons_of_mem _ h)
    simp only [Entry.nest, List.mem_append, List.mem_cons, List.not_mem_nil, or_false]
    rintro f (((rfl | rfl | rfl) | hf) | rfl)
    · exact word_packaging
    · exact word_naming (hp package List.mem_cons_self)
    · exact word_opening
    · exact inner f hf
    · exact word_closing

theorem quotable_nil : Quotable [] := ⟨nofun, nofun⟩

theorem quotable_name (draft : Draft) (i : Nat) :
    Quotable ((draft.entries.map Entry.name).getD i []) := by
  rw [List.getD_eq_getElem?_getD]
  cases h : (draft.entries.map Entry.name)[i]? with
  | none => exact quotable_nil
  | some name =>
    obtain ⟨e, he, rfl⟩ := List.mem_map.mp (List.mem_of_getElem? h)
    exact (draft.quotable e he).1

theorem word_of_mem_lines (draft : Draft) : ∀ line ∈ draft.lines, ∀ f ∈ line, Word f := by
  intro line hl
  rcases List.mem_append.mp hl with hl | hl
  · obtain ⟨e, he, rfl⟩ := List.mem_map.mp hl
    exact word_of_mem_nest (draft.quotable e he).1 (draft.quotable e he).2
  · obtain ⟨e, _, rfl⟩ := List.mem_map.mp hl
    simp only [Edge.line, List.mem_cons, List.not_mem_nil, or_false]
    rintro f (rfl | rfl | rfl)
    · exact word_naming (draft.quotable_name _)
    · exact word_pointing _
    · exact word_naming (draft.quotable_name _)

/-- The forms of the text are the words of its lines. -/
theorem exists_stream (draft : Draft) {last : Text} (h : last = [] ∨ last = ("\n" : Text)) :
    ∃ read mark, stream (draft.write last) = (read, .ok mark) ∧
      read.map form = draft.lines.flatten := by
  obtain ⟨tokens, ht, forms⟩ :=
    exists_tokenize_iff_spells.mpr (spells_writeLines draft.word_of_mem_lines h)
  obtain ⟨read, mark, hs, rfl⟩ := exists_stream_of_tokenize ht
  rw [List.map_append] at forms
  exact ⟨read, mark, hs, (List.append_inj' forms rfl).1⟩

theorem parse_write_eq (draft : Draft) {last : Text} (h : last = [] ∨ last = ("\n" : Text)) :
    parse (draft.write last) =
      .ok (.described (draft.entries.map Entry.declaration) draft.edges) := by
  obtain ⟨read, mark, hs, forms⟩ := draft.exists_stream h
  have names : (draft.entries.map Entry.declaration).map Declaration.name =
      draft.entries.map Entry.name := by
    rw [List.map_map]; rfl
  have start : (Builder.ofText (draft.write last)).Ready ((draft.entries.map Entry.line).flatten ++
      ((draft.edges.map (Edge.line (draft.entries.map Entry.name))).flatten ++ [])) []
      (.described [] []) := by
    refine ⟨?_, rfl, ⟨rfl, rfl⟩, rfl⟩
    rw [List.append_nil, ← List.flatten_append]
    unfold Builder.ofText Feed.ofText
    rw [hs]
    exact forms
  obtain ⟨m, run, hm⟩ := start.entries
  rw [List.nil_append, ← names] at hm
  obtain ⟨b, run', hb⟩ := hm.edges (names ▸ draft.first)
  rw [List.nil_append] at hb
  have whole : Builder.Reaches (.ofText (draft.write last)) b := run.trans run'
  have ending := (whole.reads fun t ht => kind_ne_finish_of_mem_stream ht).2
  have hend : b.AtEnd mark := by
    refine ⟨List.map_eq_nil_iff.mp hb.ahead, ending.trans ?_, hb.free⟩
    exact congrArg Prod.snd hs
  have result : parse (draft.write last) = _ := whole.run_eq ▸ hend.run_eq
  rw [result, hb.encloses.packages, hb.graph]
  rfl

end Draft

/-- A diagram that is written is read back as it is meant. Its entities have their
kinds, names and packages, and the relations of each are its edges of either sort,
in order. The last line may end with a line feed or with the text. -/
theorem written_diagram_parses (draft : Draft) (last : Text)
    (h : last = [] ∨ last = ("\n" : Text)) :
    ∃ g, parse (draft.write last) = .ok g ∧ g.registry = List.range draft.entries.length ∧
      g.entities.size = draft.entries.length ∧
      ∀ i e, draft.entries[i]? = some e → g.entity i = ⟨e.name, .str (join "/" e.packages), e.kind,
        Edge.targets draft.edges i .inherits, Edge.targets draft.edges i .realizes⟩ := by
  refine ⟨_, draft.parse_write_eq h, ?_, ?_, ?_⟩
  · show List.range _ = _
    rw [List.length_map]
  · show Array.size _ = _
    simp [Graph.described]
  · intro i e he
    have declared : (draft.entries.map Entry.declaration)[i]? = some e.declaration := by
      rw [List.getElem?_map, he]; rfl
    exact Graph.entity_described draft.edges declared

/-- Names that are empty, double or look like something else, in a cycle. -/
def hostileDraft : Draft where
  entries := [⟨.interface, "/' @enduml", ["p \x7b", ""]⟩, ⟨.concrete, "", []⟩,
    ⟨.abstract, "class A", ["x"]⟩, ⟨.concrete, "", ["y"]⟩]
  edges := [⟨0, .inherits, 1⟩, ⟨1, .inherits, 0⟩, ⟨1, .realizes, 2⟩, ⟨1, .inherits, 0⟩]
  quotable := by decide
  first := by decide

theorem written_diagram_parses_hostile_names : ∃ g : Graph,
    hostileDraft.write "\n" =
      ("package \"p \x7b\" \x7b package \"\" \x7b interface \"/' @enduml\" \x7d \x7d\n" ++
        "class \"\"\npackage \"x\" \x7b abstract class \"class A\" \x7d\n" ++
        "package \"y\" \x7b class \"\" \x7d\n\"/' @enduml\" --|> \"\"\n" ++
        "\"\" --|> \"/' @enduml\"\n\"\" ..|> \"class A\"\n" ++
        "\"\" --|> \"/' @enduml\"\n" : String) ∧
    parse (hostileDraft.write "\n") = .ok g ∧ g.registry = [0, 1, 2, 3] ∧
    g.entity 0 = ⟨"/' @enduml", .str "p \x7b/", .interface, [1], []⟩ ∧
    g.entity 1 = ⟨"", .str "", .concrete, [0, 0], [2]⟩ ∧
    g.entity 2 = ⟨"class A", .str "x", .abstract, [], []⟩ ∧
    g.entity 3 = ⟨"", .str "y", .concrete, [], []⟩ := by
  obtain ⟨g, hg, registry, _, entity⟩ := written_diagram_parses hostileDraft "\n" (.inr rfl)
  exact ⟨g, by decide +kernel, hg, registry, entity 0 _ rfl, entity 1 _ rfl, entity 2 _ rfl,
    entity 3 _ rfl⟩

end ClassGraph
