import ClassGraph.Proofs.Reading

/-! # The graph of a text is what its tokens say

For an accepted text the registry holds one entity for each class-like keyword
and the entities hold one reference for each relation token, as the tokens of
the text say by themselves. A text that is read to its end is refused only for a
package that is left open.
-/

namespace ClassGraph

namespace Diagram

variable {d : Diagram} {k : Nat} {t : Token}

theorem SaysAt.isRelation_iff (h : d.SaysAt k) (ht : d[k]? = some t) :
    t.kind.isRelation = true ↔ ∃ e, d.edgeAt k = some e := by
  refine ⟨(h t ht).2, ?_⟩
  intro drawn
  obtain ⟨e, he⟩ := drawn
  obtain ⟨word, hw, hr⟩ := exists_relation_of_edgeAt he
  cases ht.symm.trans hw
  exact hr

theorem SaysAt.isClassLike_iff (h : d.SaysAt k) (ht : d[k]? = some t) :
    t.kind.isClassLike = true ↔ ∃ e, d.declarationAt k = some e := by
  refine ⟨(h t ht).1, ?_⟩
  intro declared
  obtain ⟨e, he⟩ := declared
  obtain ⟨keyword, _, hk, kind, _⟩ := declarationAt_eq_some_iff.mp he
  cases ht.symm.trans hk
  rw [kind]; rfl

theorem map_registry_graphBefore (d : Diagram) (k : Nat) :
    (d.graphBefore k).registry.map (fun i => (((d.graphBefore k).entity i).kind,
        ((d.graphBefore k).entity i).name, ((d.graphBefore k).entity i).package)) =
      (d.declarationsBefore k).map fun e => (e.kind, e.name, .str e.package) := by
  apply List.ext_getElem?
  intro i
  rw [registry_graphBefore, List.getElem?_map, List.getElem?_map]
  cases h : (d.declarationsBefore k)[i]? with
  | none =>
    have := List.getElem?_eq_none_iff.mp h
    simp [this]
  | some e =>
    have := (List.getElem?_eq_some_iff.mp h).1
    rw [List.getElem?_range this]
    simp [entity_graphBefore h, Declaration.entity]

end Diagram

/-- The edges of an accepted text are one for each relation token, in token
order. The relations of an entity are its edges of either sort in that order,
and all of them lead from the registry into the registry. -/
theorem edges_of_parse {source : Text} {g : Graph} (h : parse source = .ok g) :
    ∃ (d : Diagram) (finish : Token), tokenize source = .ok (d ++ [finish]) ∧
      (∀ k t, d[k]? = some t → (t.kind.isRelation = true ↔ ∃ e, d.edgeAt k = some e)) ∧
      g.registry = List.range g.size ∧ g.entities.size = g.size ∧
      (∀ i < g.size, (g.entity i).parents = Edge.targets d.edges i .inherits ∧
        (g.entity i).interfaces = Edge.targets d.edges i .realizes) ∧
      ∀ e ∈ d.edges, e.child < g.size ∧ e.target < g.size := by
  obtain ⟨d, mark, hs, rfl, said, _⟩ := Builder.parsed h
  have size := Diagram.size_graphBefore d d.length
  refine ⟨d, mark.token, tokenize_eq_ok_iff.mpr ⟨mark, hs, rfl⟩, ?_, ?_, ?_, ?_, ?_⟩
  · intro k t ht
    exact (said k).isRelation_iff ht
  · rw [size]; rfl
  · rw [size, Diagram.size_entities_graphBefore]
  · intro i hi
    rw [size] at hi
    rw [Diagram.entity_graphBefore (List.getElem?_eq_getElem hi)]
    exact ⟨rfl, rfl⟩
  · intro e he
    rw [size]
    exact Diagram.edge_lt_of_mem he

/-- A chain of keywords keeps its subject over any number of relations, an arrow
takes its names from both sides, and braces do not separate a keyword from the
last declaration. Of two classes with one name the first is meant. -/
theorem edges_of_chains : ∃ (source : Text) (g : Graph) (d : Diagram) (finish : Token),
    source = ("interface I class A class B class A class D extends B implements I extends A " ++
      "B <|-- D -up-|> A \x7b \x7d implements I" : String) ∧
    parse source = .ok g ∧ tokenize source = .ok (d ++ [finish]) ∧
    d.edges = [⟨4, .inherits, 2⟩, ⟨4, .realizes, 0⟩, ⟨4, .inherits, 1⟩, ⟨4, .inherits, 2⟩,
      ⟨4, .inherits, 1⟩, ⟨4, .realizes, 0⟩] ∧
    (g.entity 4).parents = [2, 1, 2, 1] ∧ (g.entity 4).interfaces = [0, 0] := by
  let source : Text :=
    ("interface I class A class B class A class D extends B implements I extends A " ++
      "B <|-- D -up-|> A \x7b \x7d implements I" : String)
  obtain ⟨g, hg⟩ : ∃ g, parse source = .ok g := exists_ok_of_isOk (by decide +kernel)
  obtain ⟨d, finish, ht, _, _, _, relations, inside⟩ := edges_of_parse hg
  obtain ⟨mark, hs, _⟩ := tokenize_eq_ok_iff.mp ht
  have edges : d.edges = [⟨4, .inherits, 2⟩, ⟨4, .realizes, 0⟩, ⟨4, .inherits, 1⟩,
      ⟨4, .inherits, 2⟩, ⟨4, .inherits, 1⟩, ⟨4, .realizes, 0⟩] := by
    rw [← show _ = d from congrArg Prod.fst hs]
    decide +kernel
  have four : 4 < g.size := (inside ⟨4, .inherits, 2⟩ (by rw [edges]; decide)).1
  have lists := relations 4 four
  rw [edges] at lists
  exact ⟨source, g, d, finish, rfl, hg, ht, edges, lists⟩

/-- The entities of an accepted text are one for each class-like keyword, in
token order, and each stands in the packages that are open at its keyword. A
text that is read to its end is refused exactly where a package is left open;
plain frames may stay open. -/
theorem declarations_of_parse (source : Text) :
    (∀ g, parse source = .ok g → ∃ (d : Diagram) (finish : Token),
      tokenize source = .ok (d ++ [finish]) ∧
      (∀ k t, d[k]? = some t → (t.kind.isClassLike = true ↔ ∃ e, d.declarationAt k = some e)) ∧
      (∀ k e, d.declarationAt k = some e → (∀ name, .package name ∉ d.openFrames k) →
        e.package = []) ∧
      g.registry.map (fun i => ((g.entity i).kind, (g.entity i).name, (g.entity i).package)) =
        d.declarations.map fun e => (e.kind, e.name, .str e.package)) ∧
    ∀ b mark, Builder.Reaches (.ofText source) b → b.AtEnd mark → ∃ d : Diagram,
      tokenize source = .ok (d ++ [mark.token]) ∧
      (parse source =
          .error (.parse (.openPackage (Frame.path (d.openFrames d.length)) mark.token)) ↔
        ∃ name, .package name ∈ d.openFrames d.length) ∧
      ((∃ g, parse source = .ok g) ↔ ∀ name, .package name ∉ d.openFrames d.length) := by
  constructor
  · intro g h
    obtain ⟨d, mark, hs, rfl, said, _⟩ := Builder.parsed h
    refine ⟨d, mark.token, tokenize_eq_ok_iff.mpr ⟨mark, hs, rfl⟩, ?_, ?_, ?_⟩
    · intro k t ht
      exact (said k).isClassLike_iff ht
    · intro k e he plain
      obtain ⟨_, _, _, _, _, _, package⟩ := Diagram.declarationAt_eq_some_iff.mp he
      rw [package]; exact Frame.path_of_allPlain plain
    · exact Diagram.map_registry_graphBefore d d.length
  · intro b mark run hend
    obtain ⟨d, hs, hd⟩ := Builder.reading_of_atEnd run hend
    -- the end decides by the recorded packages, which stand for the frames
    have packages := hd.encloses.packages_eq_nil_iff
    have result : parse source = _ := run.run_eq ▸ hend.run_eq
    rw [hd.encloses.currentPackage] at result
    refine ⟨d, tokenize_eq_ok_iff.mpr ⟨mark, hs, rfl⟩, ?_⟩
    by_cases hp : Frame.AllPlain (d.openFrames d.length)
    · rw [packages.mpr hp] at result
      rw [result]
      refine ⟨⟨nofun, ?_⟩, ⟨fun _ => hp, fun _ => ⟨_, rfl⟩⟩⟩
      intro h
      obtain ⟨name, hn⟩ := h
      exact absurd hn (hp name)
    · have unclosed : b.packages.isEmpty = false := by
        rw [List.isEmpty_eq_false_iff]; exact fun he => hp (packages.mp he)
      rw [unclosed] at result
      rw [result]
      refine ⟨⟨fun _ => Classical.not_forall_not.mp hp, fun _ => rfl⟩, ⟨?_, fun h => absurd h hp⟩⟩
      intro h
      obtain ⟨g, hg⟩ := h
      cases hg

/-- Class bodies, packages in packages and stray braces may be mixed. A text that
ends in a package and in a plain frame is refused for the package. -/
theorem declarations_of_nested :
    (∃ (source : Text) (g : Graph),
      source = ("\x7d class A package a \x7b class B \x7b package b \x7b \x7b interface C " ++
        "\x7d \x7d \x7d class D \x7d class E \x7b" : String) ∧
      parse source = .ok g ∧
      g.registry.map (fun i => ((g.entity i).kind, (g.entity i).name, (g.entity i).package)) =
        ([(.concrete, "A", .str ""), (.concrete, "B", .str "a"), (.interface, "C", .str "a/b"),
          (.concrete, "D", .str "a"), (.concrete, "E", .str "")] :
          List (EntityKind × Text × Json))) ∧
    ∃ (source : Text) (finish : Token), source = ("package a \x7b \x7b" : String) ∧
      parse source = .error (.parse (.openPackage "a" finish)) := by
  constructor
  · let source : Text :=
      ("\x7d class A package a \x7b class B \x7b package b \x7b \x7b interface C " ++
        "\x7d \x7d \x7d class D \x7d class E \x7b" : String)
    obtain ⟨g, hg⟩ : ∃ g, parse source = .ok g := exists_ok_of_isOk (by decide +kernel)
    obtain ⟨d, finish, ht, _, _, declared⟩ := (declarations_of_parse source).1 g hg
    obtain ⟨mark, hs, _⟩ := tokenize_eq_ok_iff.mp ht
    have declarations : d.declarations = [⟨.concrete, "A", ""⟩, ⟨.concrete, "B", "a"⟩,
        ⟨.interface, "C", "a/b"⟩, ⟨.concrete, "D", "a"⟩, ⟨.concrete, "E", ""⟩] := by
      rw [← show _ = d from congrArg Prod.fst hs]
      decide +kernel
    rw [declarations] at declared
    exact ⟨source, g, rfl, hg, declared⟩
  · let source : Text := ("package a \x7b \x7b" : String)
    let keyword : Token := ⟨.package, "package", ⟨1, 1⟩⟩
    let name : Token := ⟨.name, "a", ⟨1, 9⟩⟩
    let inner : Builder :=
      (((Builder.ofText source).pass keyword).pass name).pass ⟨.openBrace, "\x7b", ⟨1, 11⟩⟩
    have package : Builder.Reads (.ofText source) (inner.enter name.value) :=
      .package rfl (by decide +kernel) rfl (by decide +kernel) rfl (by decide +kernel) rfl
    have plain : Builder.Reads (inner.enter name.value) _ :=
      @Builder.Reads.openBrace _ ⟨.openBrace, "\x7b", ⟨1, 13⟩⟩ rfl (by decide +kernel) rfl
    obtain ⟨mark, ending⟩ : ∃ mark, (Token.stream source).2 = .ok mark :=
      exists_ok_of_isOk (by decide +kernel)
    obtain ⟨d, ht, refused, _⟩ := (declarations_of_parse source).2 _ mark
      (.tail (.single package.proceeds) plain.proceeds) ⟨by decide +kernel, ending, rfl⟩
    obtain ⟨_, hs, _⟩ := tokenize_eq_ok_iff.mp ht
    have frames : d.openFrames d.length = [.plain, .package "a"] := by
      rw [← show _ = d from congrArg Prod.fst hs]
      decide +kernel
    rw [frames] at refused
    exact ⟨source, mark.token, rfl, refused.mpr ⟨"a", by decide⟩⟩

end ClassGraph
