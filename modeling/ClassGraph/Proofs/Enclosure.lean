import ClassGraph.Proofs.Diagram.Enclosed
import ClassGraph.Proofs.Extension

/-! # A text within packages

A text that is accepted can be put between the braces of a package: a line in
front of it and a line behind it. What it declares has the name of the package in
front of its path then, and nothing else changes. Packages around each other are
so many names in front of the path, no matter which of them are joined before.
-/

namespace ClassGraph

open Text

/-- A text between the braces of a package, on lines of its own. -/
def enclose (name source : Text) : Text :=
  "package \"" ++ name ++ "\" \x7b\n" ++ source ++ "\n\x7d"

/-! ## Paths -/

namespace Frame

variable {frames : List Frame} {names : List Text}

theorem path_within_of_allPlain (h : AllPlain frames) :
    path (frames ++ (names.map package).reverse) = join "/" names := by
  unfold path
  rw [List.filterMap_append, filterMap_name?_eq_nil_iff.mpr h, List.nil_append, filterMap_packages]

theorem path_within (h : ¬ AllPlain frames) (hn : names ≠ []) :
    path (frames ++ (names.map package).reverse) = join "/" names ++ "/" ++ path frames := by
  have inner : (frames.filterMap name?).reverse ≠ [] :=
    mt List.reverse_eq_nil_iff.mp (mt filterMap_name?_eq_nil_iff.mp h)
  unfold path
  rw [List.filterMap_append, List.reverse_append, filterMap_packages, join_append _ hn inner]

/-- Of packages around each other the path tells the joined names. -/
theorem path_joined (frames : List Frame) (hn : names ≠ []) :
    path (frames ++ (names.map package).reverse) = path (frames ++ [package (join "/" names)]) := by
  have one : [package (join "/" names)] = ([join "/" names].map package).reverse := rfl
  rw [one]
  by_cases h : AllPlain frames
  · rw [path_within_of_allPlain h, path_within_of_allPlain h, join_singleton]
  · rw [path_within h hn, path_within h (List.cons_ne_nil _ _), join_singleton]

end Frame

/-! ## The forms of an enclosed text -/

theorem Text.mem_join {separator : Text} {texts : List Text} {c : CodePoint}
    (h : c ∈ join separator texts) : c ∈ separator ∨ ∃ t ∈ texts, c ∈ t := by
  induction texts with
  | nil => cases h
  | cons t texts ih =>
    by_cases more : texts = []
    · rw [more, join_singleton] at h
      exact .inr ⟨t, List.mem_cons_self, h⟩
    · rw [← List.singleton_append, join_append _ (List.cons_ne_nil _ _) more, join_singleton] at h
      rcases List.mem_append.mp h with h | h
      · rcases List.mem_append.mp h with h | h
        · exact .inr ⟨t, List.mem_cons_self, h⟩
        · exact .inl h
      · refine (ih h).imp_right fun ⟨u, hu, hc⟩ => ⟨u, List.mem_cons_of_mem _ hu, hc⟩

namespace Token

theorem quotable_join {names : List Text} (h : ∀ name ∈ names, Quotable name) :
    Quotable (join "/" names) := by
  have outside {c : CodePoint} (hc : c ∉ ("/" : Text)) (hn : ∀ name ∈ names, c ∉ name) :
      c ∉ join "/" names := fun hm =>
    (mem_join hm).elim hc fun ⟨name, mem, inside⟩ => hn name mem inside
  exact ⟨outside (by decide) fun name hm => (h name hm).1,
    outside (by decide) fun name hm => (h name hm).2⟩

theorem Spells.enclose {forms : List Form} {source name : Text}
    (h : Spells (forms ++ [(.finish, [])]) source) (hq : Quotable name) :
    Spells (packaging :: naming name :: opening :: (forms ++ [closing]) ++ [(.finish, [])])
      (enclose name source) := by
  have last : Spells [closing, (.finish, [])] ("\n\x7d" : Text) :=
    ((Spells.stop .nil).word word_closing (.inl rfl)).blank isBlank_newline
  have body := h.append last (.inr ⟨("\x7d" : Text), rfl⟩)
  have words : ∀ f ∈ [packaging, naming name, opening], Word f := by
    simp only [List.forall_mem_cons]
    exact ⟨word_packaging, word_naming hq, word_opening, nofun⟩
  have whole := (body.blank isBlank_newline).line (.inr ⟨_, .inr rfl⟩) words
  have text : ClassGraph.enclose name source = writeLine [packaging, naming name, opening] ++
      .scalar '\n' :: (source ++ ("\n\x7d" : Text)) := by
    rw [writeLine_cons_cons, writeLine_cons_cons, writeLine_singleton]
    unfold ClassGraph.enclose packaging naming opening
    simp only [List.append_assoc, List.cons_append]
    rfl
  rw [text, show packaging :: naming name :: opening :: (forms ++ [closing]) ++ [(.finish, [])] =
    [packaging, naming name, opening] ++ (forms ++ [closing, (.finish, [])]) by
      simp only [List.cons_append, List.nil_append, List.append_assoc]]
  exact whole

/-- The stream of a text that spells so many forms up to its end. -/
theorem stream_of_spells {forms : List Form} {source : Text}
    (h : Spells (forms ++ [(.finish, [])]) source) :
    ∃ (d : Diagram) (mark : EndMark), stream source = (d, .ok mark) ∧ mark.text = [] ∧
      d.map form = forms := by
  obtain ⟨tokens, ht, hf⟩ := exists_tokenize_iff_spells.mpr h
  obtain ⟨d, mark, hs, rfl⟩ := exists_stream_of_tokenize ht
  rw [List.map_append] at hf
  obtain ⟨forms_eq, last⟩ := List.append_inj' hf rfl
  exact ⟨d, mark, hs, congrArg Prod.snd (List.cons.inj last).1, forms_eq⟩

end Token

/-! ## What is declared within frames -/

namespace Diagram

theorem Site.within_nil : Site.within [] = id := funext fun s => by
  unfold within
  rw [List.append_nil]
  rfl

/-- The graph that the sites of a diagram make within more frames. -/
def graphWithin (d : Diagram) (outer : List Frame) : Graph :=
  .described ((d.sites.map (.within outer)).map Site.declaration) d.edges

theorem size_graphWithin (d : Diagram) (outer : List Frame) :
    (d.graphWithin outer).entities.size = d.sites.length := by
  simp [graphWithin, Graph.described]

theorem registry_graphWithin (d : Diagram) (outer : List Frame) :
    (d.graphWithin outer).registry = List.range d.sites.length := by
  simp [graphWithin, Graph.described]

/-- Every entity is that of one site, within frames as without. -/
theorem exists_site (d : Diagram) {i : Nat} (hi : i < d.sites.length) :
    ∃ k s, d.siteAt k = some s ∧ (d.declarationsBefore k).length = i ∧
      ∀ outer, (d.graphWithin outer).entity i = (s.within outer).declaration.entity d.edges i := by
  have hs := List.getElem?_eq_getElem hi
  obtain ⟨k, site, number⟩ := exists_siteAt hs
  refine ⟨k, _, site, (length_declarationsBefore d k).trans number, fun outer => ?_⟩
  refine Graph.entity_described _ ?_
  rw [List.getElem?_map, List.getElem?_map, hs]
  rfl

/-- The frames of packages around a diagram count by their joined names. -/
theorem graphWithin_joined (d : Diagram) {names : List Text} (hn : names ≠ []) :
    d.graphWithin (names.map Frame.package).reverse =
      d.graphWithin [.package (join "/" names)] := by
  unfold graphWithin
  rw [List.map_map, List.map_map]
  refine congrArg (fun f => Graph.described (d.sites.map f) d.edges) (funext fun s => ?_)
  exact congrArg (Declaration.mk s.kind s.name) (Frame.path_joined s.frames hn)

end Diagram

/-! ## Whole texts -/

open Diagram

/-- A text without an end mark that is accepted, and whose braces match. -/
structure Whole (source : Text) (d : Diagram) : Prop where
  stream : ∃ mark, Token.stream source = (d, .ok mark) ∧ mark.text = []
  accepted : ∃ g, parse source = .ok g
  matched : d.Matched

namespace Whole

variable {source : Text} {d : Diagram}

theorem said (h : Whole source d) : (∀ k, d.SaysAt k) ∧ Items none d := by
  obtain ⟨g, hg⟩ := h.accepted
  obtain ⟨mark, hs, _⟩ := h.stream
  have wf := Builder.wellFormed_of_parse hg
  obtain ⟨d', _, hs', _, said, _⟩ := Builder.parsed hg
  cases hs.symm.trans hs'
  rw [hs] at wf
  exact ⟨said, wf.items⟩

theorem parse_eq (h : Whole source d) : parse source = .ok (d.graphWithin []) := by
  obtain ⟨g, hg⟩ := h.accepted
  obtain ⟨mark, hs, _⟩ := h.stream
  obtain ⟨d', _, hs', rfl, _⟩ := Builder.parsed hg
  cases hs.symm.trans hs'
  rw [hg, graphBefore_eq_described, declarationsBefore_eq_map, graphWithin, Site.within_nil,
    List.map_id]
  rfl

theorem spells (h : Whole source d) :
    Token.Spells (d.map Token.form ++ [(.finish, [])]) source := by
  obtain ⟨mark, hs, unmarked⟩ := h.stream
  have tokens : tokenize source = .ok (d ++ [mark.token]) := tokenize_eq_ok_iff.mpr ⟨mark, hs, rfl⟩
  have spelled := exists_tokenize_iff_spells.mp ⟨_, tokens, rfl⟩
  rw [List.map_append] at spelled
  have last : mark.token.form = (.finish, []) := congrArg (Prod.mk _) unmarked
  rwa [List.map_singleton, last] at spelled

/-- Within a package a whole text is one again, and all its sites get a frame. -/
theorem enclose (h : Whole source d) {name : Text} (hq : Token.Quotable name) :
    ∃ d', Whole (enclose name source) d' ∧ d'.sites = d.sites.map (.within [.package name]) ∧
      d'.edges = d.edges := by
  obtain ⟨d', mark, hs, unmarked, forms⟩ := Token.stream_of_spells (h.spells.enclose hq)
  have inside : Encloses name d d' := forms
  obtain ⟨said, items⟩ := h.said
  have wf := inside.wellFormed h.matched items said
  have whole : Whole (ClassGraph.enclose name source) d' :=
    ⟨⟨mark, hs, unmarked⟩, ⟨_, Builder.parse_of_wellFormed hs wf⟩, inside.matched h.matched⟩
  exact ⟨d', whole, inside.sites_eq h.matched said, inside.edges_eq h.matched said⟩

theorem enclose_all (h : Whole source d) {names : List Text}
    (hq : ∀ name ∈ names, Token.Quotable name) :
    ∃ d', Whole (names.foldr ClassGraph.enclose source) d' ∧
      d'.sites = d.sites.map (.within (names.map Frame.package).reverse) ∧ d'.edges = d.edges := by
  induction names with
  | nil => exact ⟨d, h, by rw [List.map_nil, List.reverse_nil, Site.within_nil, List.map_id], rfl⟩
  | cons name names ih =>
    obtain ⟨d', h', sites, edges⟩ := ih fun n hn => hq n (List.mem_cons_of_mem _ hn)
    obtain ⟨d'', h'', sites', edges'⟩ := h'.enclose (hq name List.mem_cons_self)
    refine ⟨d'', h'', ?_, edges'.trans edges⟩
    rw [sites', sites, List.map_map, List.map_cons, List.reverse_cons]
    refine congrArg (List.map · d.sites) (funext fun s => ?_)
    exact congrArg (Site.mk s.kind s.name) (List.append_assoc _ _ _)

theorem parse_within (h : Whole source d) {names : List Text}
    (hq : ∀ name ∈ names, Token.Quotable name) :
    parse (names.foldr ClassGraph.enclose source) =
      .ok (d.graphWithin (names.map Frame.package).reverse) := by
  obtain ⟨d', h', sites, edges⟩ := h.enclose_all hq
  rw [h'.parse_eq, graphWithin, graphWithin, sites, edges, Site.within_nil, List.map_id]

end Whole

/-- Around a text that is accepted without an end mark, and whose braces balance,
a package changes nothing but the packages of the entities. The entities are the
same, number by number, in name, kind and relations. One that is declared outside
of all packages of the text is in the package, and any other has the name of the
package in front of its path. So packages around each other are the same as one
that bears their joined names. -/
theorem enclosing_prefixes_packages {source : Text} {g : Graph} {d : Diagram} {finish : Token}
    (tokens : tokenize source = .ok (d ++ [finish])) (unmarked : finish.text = [])
    (balanced : d.Balanced) (accepted : parse source = .ok g) :
    (∀ name, Token.Quotable name → ∃ g', parse (enclose name source) = .ok g' ∧
      g'.registry = g.registry ∧ g'.entities.size = g.entities.size ∧
      ∀ i < g.size, (g'.entity i).name = (g.entity i).name ∧
        (g'.entity i).kind = (g.entity i).kind ∧ (g'.entity i).parents = (g.entity i).parents ∧
        (g'.entity i).interfaces = (g.entity i).interfaces ∧
        ∃ k e, d.declarationAt k = some e ∧ (d.declarationsBefore k).length = i ∧
          (g.entity i).package = .str e.package ∧
          ((∀ inner, .package inner ∉ d.openFrames k) → (g'.entity i).package = .str name) ∧
          ∀ inner, .package inner ∈ d.openFrames k →
            (g'.entity i).package = .str (name ++ "/" ++ e.package)) ∧
    ∀ names : List Text, names ≠ [] → (∀ name ∈ names, Token.Quotable name) →
      ∃ g', parse (names.foldr enclose source) = .ok g' ∧
        parse (enclose (join "/" names) source) = .ok g' := by
  obtain ⟨mark, hs, rfl⟩ := tokenize_eq_ok_iff.mp tokens
  have whole : Whole source d := ⟨⟨mark, hs, unmarked⟩, ⟨g, accepted⟩, balanced.matched⟩
  obtain rfl : g = d.graphWithin [] := Except.ok.inj (accepted.symm.trans whole.parse_eq)
  constructor
  · intro name hq
    refine ⟨_, whole.parse_within (List.forall_mem_singleton.mpr hq), ?_, ?_, fun i hi => ?_⟩
    · rw [registry_graphWithin, registry_graphWithin]
    · rw [size_graphWithin, size_graphWithin]
    · rw [Graph.size, registry_graphWithin, List.length_range] at hi
      obtain ⟨k, s, site, number, entity⟩ := exists_site d hi
      have frames := frames_of_siteAt site
      rw [entity, entity]
      refine ⟨rfl, rfl, rfl, rfl, k, s.declaration, ?_, number, ?_, fun plain => ?_,
        fun inner packaged => ?_⟩
      · rw [declarationAt_eq_map, site]
        rfl
      · rw [Site.within_nil]
        rfl
      · rw [← frames] at plain
        have path := @Frame.path_within_of_allPlain s.frames [name] plain
        exact congrArg Json.str (path.trans (join_singleton _ _))
      · rw [← frames] at packaged
        have path := @Frame.path_within s.frames [name] (fun plain => plain inner packaged)
          (List.cons_ne_nil _ _)
        rw [join_singleton] at path
        exact congrArg Json.str path
  · intro names hn hq
    refine ⟨_, whole.parse_within hq, ?_⟩
    rw [graphWithin_joined d hn]
    exact whole.parse_within (List.forall_mem_singleton.mpr (Token.quotable_join hq))

/-- A comment may end the text, and a keyword may begin its last line. One class
stands in a package of the text. -/
theorem enclosing_prefixes_packages_of_commented_text : ∃ (source : Text) (g g' nested : Graph),
    source = ("interface I package q \x7b class A \x7b \x7d implements I \x7d class B" ++
      "\nextends A ' end" : String) ∧
    parse source = .ok g ∧ parse (enclose "p" source) = .ok g' ∧ g'.registry = g.registry ∧
    (∀ i < g.size, (g'.entity i).name = (g.entity i).name ∧
      (g'.entity i).parents = (g.entity i).parents) ∧
    parse (enclose "a" (enclose "b/c" source)) = .ok nested ∧
    parse (enclose "a/b/c" source) = .ok nested := by
  let source : Text := ("interface I package q \x7b class A \x7b \x7d implements I \x7d class B" ++
      "\nextends A ' end" : String)
  have ending : (Token.stream source).2 = .ok ⟨[], ⟨2, 16⟩⟩ := by decide +kernel
  obtain ⟨g, hg⟩ : ∃ g, parse source = .ok g := exists_ok_of_isOk (by decide +kernel)
  obtain ⟨single, joined⟩ := enclosing_prefixes_packages
    (tokenize_eq_ok_iff.mpr ⟨_, Prod.ext rfl ending, rfl⟩) rfl
    ⟨by decide +kernel, by decide +kernel⟩ hg
  obtain ⟨g', hg', registry, _, same⟩ := single "p" (by decide)
  obtain ⟨nested, hn, hj⟩ := joined ["a", "b/c"] (by decide) (by decide)
  exact ⟨source, g, g', nested, rfl, hg, hg', registry,
    fun i hi => ⟨(same i hi).1, (same i hi).2.2.1⟩, hn, hj⟩

end ClassGraph
