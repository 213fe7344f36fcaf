import ClassGraph.Proofs.Document
import ClassGraph.Proofs.Enclosure
import ClassGraph.Table

/-! # A table can be read back

A reader cuts a row at its bars and leaves alone the bars behind a backslash. In a
cell every bar is behind a backslash and none ends in front of the border, since a
space lies between them. So whatever bars and backslashes a name holds, the row
has five cells, and without the backslash in front of its bars a cell is the text
that was put into it.
-/

namespace ClassGraph

namespace Table

/-! ## Reading a row -/

/-- The pieces of a row between its bars. A bar behind a backslash is none of them;
`guarded` says whether a backslash stands in front. -/
def pieces (guarded : Bool) : Text → List Text
  | [] => [[]]
  | c :: rest =>
    if c = .scalar '|' ∧ guarded = false then [] :: pieces false rest
    else (pieces (c = .scalar '\\') rest).modifyHead (c :: ·)

/-- A text without the backslash in front of each bar. -/
def unescape : Text → Text
  | .scalar '\\' :: .scalar '|' :: rest => .scalar '|' :: unescape rest
  | c :: rest => c :: unescape rest
  | [] => []

/-- The text of a cell, which has a space at both ends. -/
def readCell? : Text → Option Text
  | .scalar ' ' :: rest =>
    if rest.getLast? = some (.scalar ' ') then some (unescape rest.dropLast) else none
  | _ => none

/-- The texts of the cells of a row, which has a bar at both ends. -/
def readRow? (row : Text) : Option (List Text) :=
  match pieces false row with
  | [] :: rest => if rest.getLast? = some [] then rest.dropLast.mapM readCell? else none
  | _ => none

/-! ## Cells -/

variable {t rest : Text}

theorem escapeCell_cons (c : CodePoint) (t : Text) :
    escapeCell (c :: t) = (if c = .scalar '|' then "\\|" else [c] : Text) ++ escapeCell t := rfl

/-- A bar is never the first character of a cell. -/
theorem escapeCell_ne_cons (t : Text) : escapeCell t ≠ .scalar '|' :: rest := by
  cases t with
  | nil => nofun
  | cons c t =>
    rw [escapeCell_cons]
    split
    · nofun
    · rename_i other
      intro h
      exact other (List.cons.inj h).1

theorem unescape_cons (c : CodePoint) (h : ∀ rest, t ≠ .scalar '|' :: rest) :
    unescape (c :: t) = c :: unescape t := by
  rw [unescape.eq_2]
  intro rest _ bar
  exact h rest bar

theorem unescape_escapeCell (t : Text) : unescape (escapeCell t) = t := by
  induction t with
  | nil => rfl
  | cons c t ih =>
    rw [escapeCell_cons]
    split
    · rename_i bar
      rw [bar]
      exact congrArg (_ :: ·) ih
    · rw [List.singleton_append, unescape_cons c fun _ => escapeCell_ne_cons t, ih]

theorem pieces_of_ne {c : CodePoint} (h : c ≠ .scalar '|') (guarded : Bool) (rest : Text) :
    pieces guarded (c :: rest) = (pieces (c = .scalar '\\') rest).modifyHead (c :: ·) := by
  rw [pieces, if_neg fun bar => h bar.1]

/-- A cell ends at the first bar that a space stands in front of. -/
theorem pieces_escapeCell (guarded : Bool) (t rest : Text) :
    pieces guarded (escapeCell t ++ (" |" ++ rest)) =
      (escapeCell t ++ " ") :: pieces false rest := by
  induction t generalizing guarded with
  | nil => rfl
  | cons c t ih =>
    rw [escapeCell_cons]
    split
    · rename_i bar
      show pieces guarded (.scalar '\\' :: .scalar '|' :: (escapeCell t ++ (" |" ++ rest))) = _
      rw [pieces_of_ne (by decide)]
      -- the backslash guards the bar, and the bar guards nothing
      show (pieces true (.scalar '|' :: _)).modifyHead _ = _
      rw [pieces, if_neg (by decide)]
      show ((pieces false _).modifyHead _).modifyHead _ = _
      rw [ih, List.modifyHead_cons, List.modifyHead_cons]
      rfl
    · rename_i other
      rw [List.singleton_append, List.cons_append, pieces_of_ne other, ih, List.modifyHead_cons]
      rfl

/-- A text as it stands between two bars. -/
def padded (t : Text) : Text := " " ++ escapeCell t ++ " "

theorem readCell?_padded (t : Text) : readCell? (padded t) = some t := by
  have last : (escapeCell t ++ " ").getLast? = some (.scalar ' ') := List.getLast?_concat
  have front : (escapeCell t ++ " ").dropLast = escapeCell t := List.dropLast_concat
  show (if (escapeCell t ++ " ").getLast? = some (.scalar ' ') then
    some (unescape (escapeCell t ++ " ").dropLast) else none) = some t
  rw [if_pos last, front, unescape_escapeCell]

/-! ## Rows -/

theorem pieces_padded (t rest : Text) :
    pieces false (" " ++ escapeCell t ++ " |" ++ rest) = padded t :: pieces false rest := by
  show pieces false (.scalar ' ' :: (escapeCell t ++ " |" ++ rest)) = _
  rw [pieces_of_ne (by decide), List.append_assoc, pieces_escapeCell]
  rfl

theorem pieces_cells (t : Text) (texts : List Text) :
    pieces false (" " ++ Text.join " | " ((t :: texts).map escapeCell) ++ " |") =
      (t :: texts).map padded ++ [[]] := by
  induction texts generalizing t with
  | nil =>
    have whole := pieces_padded t []
    rw [List.append_nil] at whole
    rw [List.map_singleton, Text.join_singleton, whole]
    rfl
  | cons u texts ih =>
    have joined : Text.join " | " ((t :: u :: texts).map escapeCell) =
        escapeCell t ++ " | " ++ Text.join " | " ((u :: texts).map escapeCell) :=
      List.intercalate_cons_of_ne_nil (List.cons_ne_nil _ _)
    have first := pieces_padded t (" " ++ Text.join " | " ((u :: texts).map escapeCell) ++ " |")
    rw [ih] at first
    refine Eq.trans (congrArg (pieces false) ?_) first
    rw [joined, show (" | " : Text) = " |" ++ " " from rfl]
    simp only [List.append_assoc]

theorem readRow?_row {texts : List Text} (h : texts ≠ []) :
    readRow? (row (texts.map escapeCell)) = some texts := by
  obtain ⟨t, texts, rfl⟩ := List.exists_cons_of_ne_nil h
  have cut : pieces false (row ((t :: texts).map escapeCell)) =
      [] :: ((t :: texts).map padded ++ [[]]) := by
    rw [← pieces_cells]
    rfl
  have read (texts : List Text) : (texts.map padded).mapM readCell? = some texts := by
    induction texts with
    | nil => rfl
    | cons t texts ih => simp only [List.map_cons, List.mapM_cons, readCell?_padded, ih]; rfl
  unfold readRow?
  rw [cut]
  simp only [List.getLast?_concat, List.dropLast_concat, if_true, read]

end Table

/-! ## Texts on one line -/

def Text.OneLine (t : Text) : Prop := .scalar '\n' ∉ t

instance (t : Text) : Decidable t.OneLine := inferInstanceAs (Decidable (_ ∉ t))

/-- The names and packages that a table shows are texts on one line. -/
structure Graph.Lined (g : Graph) : Prop where
  name : ∀ i ∈ g.registry, (g.nameOf i).OneLine
  package : ∀ i ∈ g.registry, ∃ package, (g.entity i).package = .str package ∧ package.OneLine
  target : ∀ i ∈ g.registry, ∀ j ∈ (g.entity i).targets, (g.nameOf j).OneLine

namespace Text

theorem oneLine_append {s t : Text} : (s ++ t).OneLine ↔ s.OneLine ∧ t.OneLine := by
  unfold OneLine
  rw [List.mem_append, not_or]

theorem inherited_oneLine : Inherited OneLine where
  piece oneLine part newline := oneLine (part.subset newline)
  slash hs ht := oneLine_append.mpr ⟨oneLine_append.mpr ⟨hs, by decide⟩, ht⟩

theorem oneLine_join {separator : Text} {texts : List Text} (h : separator.OneLine)
    (each : ∀ t ∈ texts, t.OneLine) : (join separator texts).OneLine := fun newline =>
  (mem_join newline).elim h fun ⟨t, ht, inside⟩ => each t ht inside

end Text

namespace Token

open Text

theorem oneLine_of_recognize {text behind : Text} {kind : TokenKind}
    (h : recognize (text ++ behind) = some (kind, text.length)) : text.OneLine := by
  intro newline
  obtain ⟨front, rest, rfl⟩ := List.append_of_mem newline
  have ends : AtLineEnd (.scalar '\n' :: rest ++ behind) := .inr ⟨_, rfl⟩
  rw [List.append_assoc, recognize_extend ends] at h
  have fits := (recognize_fits h).2
  rw [List.length_append, List.length_cons] at fits
  omega

theorem Spells.oneLine {forms : List Form} {source : Text} (h : Spells forms source) :
    ∀ f ∈ forms, f.2.OneLine := by
  induction h with
  | stop => exact List.forall_mem_singleton.mpr nofun
  | mark _ recognized => exact List.forall_mem_singleton.mpr (oneLine_of_recognize recognized)
  | token _ recognized _ _ ih =>
    exact List.forall_mem_cons.mpr ⟨oneLine_of_recognize recognized, ih⟩

end Token

theorem traces_oneLine_of_parse {source : Text} {g : Graph} (h : parse source = .ok g) :
    g.Traces Text.OneLine := by
  obtain ⟨d, mark, hs, -⟩ := Builder.parsed h
  have forms := (Token.spells_of_readAll (c := .ofText source) hs).oneLine
  have token {t : Token} (ht : t ∈ d ++ [mark.token]) : t.text.OneLine :=
    forms _ (List.mem_map_of_mem ht)
  have feed : (Builder.ofText source).feed.ahead = d ∧
      (Builder.ofText source).feed.ending = .ok mark := by
    unfold Builder.ofText Token.Feed.ofText
    rw [hs]
    exact ⟨rfl, rfl⟩
  have begun : (Builder.ofText source).Traces Text.OneLine :=
    { empty := nofun
      ahead := fun t ht => token (List.mem_append_left _ (feed.1 ▸ ht))
      ending := fun found same => by
        cases feed.2.symm.trans same
        exact token (List.mem_append_right _ List.mem_cons_self)
      latest := nofun
      previous := nofun
      graph := nofun
      packages := nofun
      pending := nofun }
  have run := Builder.traces_run Text.inherited_oneLine begun
  rwa [show (Builder.ofText source).run.1 = .ok g from h] at run

theorem Graph.lined_of_parse {source : Text} {g : Graph} (h : parse source = .ok g) : g.Lined := by
  have traces := traces_oneLine_of_parse h
  have named (i : Nat) : (g.nameOf i).OneLine := nameOf_traces nofun traces i
  refine ⟨fun i _ => named i, fun i hi => ?_, fun i _ j _ => named j⟩
  obtain ⟨d, _, _, rfl, _⟩ := Builder.parsed h
  rw [d.declared_graphBefore.registry, List.mem_range] at hi
  rw [entity_of_lt hi]
  exact (traces i hi).2

namespace Table

variable {g : Graph} {i : Nat} {package title : Text}

/-- What a row of the table tells of an entity. -/
def told (g : Graph) (i : Nat) (package : Text) : List Text :=
  [g.nameOf i, (g.entity i).kind.tag, package, Text.join ", " ((g.entity i).parents.map g.nameOf),
    Text.join ", " ((g.entity i).interfaces.map g.nameOf)]

theorem cells_eq (h : (g.entity i).package = .str package) :
    cells g i = (told g i package).map escapeCell := by
  have placed : cell (g.entity i).package = escapeCell package := by
    rw [h]
    cases package with
    | nil => rfl
    | cons c t => rfl
  show [_, _, cell (g.entity i).package, _, _] = _
  rw [placed]
  rfl

theorem oneLine_escapeCell {t : Text} (h : t.OneLine) : (escapeCell t).OneLine := by
  intro newline
  obtain ⟨c, hc, inside⟩ := List.mem_flatMap.mp newline
  split at inside
  · revert inside
    decide
  · exact h (List.mem_singleton.mp inside ▸ hc)

theorem oneLine_row {texts : List Text} (h : ∀ t ∈ texts, t.OneLine) : (row texts).OneLine := by
  have bar : Text.OneLine " | " := by decide
  unfold row
  rw [Text.oneLine_append, Text.oneLine_append]
  exact ⟨⟨by decide, Text.oneLine_join bar h⟩, by decide⟩

theorem oneLine_heading (h : title.OneLine) : (heading title).OneLine := by
  unfold heading
  split
  · decide
  · exact Text.oneLine_append.mpr ⟨by decide, h⟩

/-- The texts of a row come from a graph whose names and packages are on one line. -/
theorem oneLine_of_mem_told (h : g.Lined) (hi : i ∈ g.registry) (placed : package.OneLine) :
    ∀ t ∈ told g i package, t.OneLine := by
  have comma : Text.OneLine ", " := by decide
  have names {targets : List Nat} (among : ∀ j ∈ targets, j ∈ (g.entity i).targets) :
      (Text.join ", " (targets.map g.nameOf)).OneLine := by
    refine Text.oneLine_join comma fun t ht => ?_
    obtain ⟨j, hj, rfl⟩ := List.mem_map.mp ht
    exact h.target i hi j (among j hj)
  have tag (kind : EntityKind) : Text.OneLine kind.tag := by cases kind <;> decide
  unfold told
  simp only [List.forall_mem_cons]
  exact ⟨h.name i hi, tag _, placed, names fun j hj => List.mem_append_left _ hj,
    names fun j hj => List.mem_append_right _ hj, nofun⟩

/-- The lines of the table, each of which is one. -/
theorem splitOn_render (entities : g.registry ≠ []) (lined : g.Lined) (plain : title.OneLine) :
    (render g title).splitOn (.scalar '\n') = lines g title := by
  have each : ∀ line ∈ lines g title, line.OneLine := by
    unfold lines
    rw [if_neg (by simpa using entities)]
    simp only [List.forall_mem_append, List.forall_mem_cons, List.forall_mem_map]
    refine ⟨⟨⟨oneLine_heading plain, by decide, by decide, by decide, nofun⟩, fun i hi => ?_⟩,
      by decide, nofun⟩
    obtain ⟨package, told, placed⟩ := lined.package i hi
    rw [cells_eq told]
    refine oneLine_row (List.forall_mem_map.mpr fun t ht => ?_)
    exact oneLine_escapeCell (oneLine_of_mem_told lined hi placed t ht)
  refine List.splitOn_intercalate _ each ?_
  unfold lines
  split <;> nofun

/-- A table with rows tells the registered entities, whatever bars and backslashes
their texts hold: each line is the heading, the head of the columns, or the row of
one entity, and a row is read back to the five texts that were put into it. The
names and packages of a parsed graph are texts on one line, as this takes. -/
theorem table_reads_back :
    (∀ (g : Graph) (title : Text), g.registry ≠ [] → g.Lined → title.OneLine →
      ∃ rows : List Text, (render g title).splitOn (.scalar '\n') =
          [heading title, "", "| Name | Kind | Package | Extends | Implements |",
            "|------|------|---------|---------|------------|"] ++ rows ++ [[]] ∧
        List.Forall₂ (fun i row => ∃ package, (g.entity i).package = .str package ∧
          readRow? row = some (told g i package)) g.registry rows) ∧
    ∀ source g, parse source = .ok g → g.Lined := by
  refine ⟨fun g title entities lined plain => ?_, fun _ _ => Graph.lined_of_parse⟩
  refine ⟨g.registry.map fun i => row (cells g i), ?_, ?_⟩
  · rw [splitOn_render entities lined plain]
    unfold lines
    rw [if_neg (by simpa using entities)]
  · rw [List.forall₂_map_right_iff, List.forall₂_same]
    intro i hi
    obtain ⟨package, placed, -⟩ := lined.package i hi
    refine ⟨package, placed, ?_⟩
    rw [cells_eq placed]
    exact readRow?_row (List.cons_ne_nil _ _)

/-- Two abstract classes of a cycle, one of them with an interface beyond the registry. -/
theorem table_reads_back_of_bars : ∃ (g : Graph) (rows : List Text),
    g = ⟨#[⟨"a|b\\", .str "p|", .abstract, [1], [2]⟩, ⟨"\\|", .str "", .abstract, [0], []⟩,
      ⟨" i ", .null, .interface, [], []⟩], [0, 1]⟩ ∧
    (render g "t|").splitOn (.scalar '\n') = ([heading "t|", "",
      "| Name | Kind | Package | Extends | Implements |",
      "|------|------|---------|---------|------------|"] : List Text) ++ rows ++ [[]] ∧
    rows.map readRow? = [some (["a|b\\", "abstract class", "p|", "\\|", " i "] : List Text),
      some (["\\|", "abstract class", "", "a|b\\", ""] : List Text)] := by
  let g : Graph := ⟨#[⟨"a|b\\", .str "p|", .abstract, [1], [2]⟩,
    ⟨"\\|", .str "", .abstract, [0], []⟩, ⟨" i ", .null, .interface, [], []⟩], [0, 1]⟩
  have lined : g.Lined := by
    refine ⟨by decide, ?_, by decide⟩
    simp only [g, List.forall_mem_cons]
    exact ⟨⟨"p|", rfl, by decide⟩, ⟨"", rfl, by decide⟩, nofun⟩
  obtain ⟨rows, cut, read⟩ := table_reads_back.1 g "t|" (by decide) lined (by decide)
  refine ⟨g, rows, rfl, cut, ?_⟩
  obtain ⟨first, rest, ⟨_, ⟨⟩, here⟩, more, rfl⟩ := List.forall₂_cons_left_iff.mp read
  obtain ⟨second, _, ⟨_, ⟨⟩, there⟩, done, rfl⟩ := List.forall₂_cons_left_iff.mp more
  obtain rfl := List.forall₂_nil_left_iff.mp done
  rw [List.map_cons, List.map_cons, List.map_nil, here, there]
  rfl

end Table
end ClassGraph
