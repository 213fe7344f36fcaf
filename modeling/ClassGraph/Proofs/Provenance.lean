import ClassGraph.Builder
import ClassGraph.Proofs.Json.Rereading
import ClassGraph.Proofs.Offsets

/-! # Where the texts of a graph come from

Names and packages are pieces of the text that is read, and so is every text that
an error shows; only the paths of packages are put together, with slashes between
them. What holds of the text that is read, of its pieces and of pieces joined by
a slash therefore holds of all of them, whether the text is a diagram or not.
-/

namespace ClassGraph

/-- A property that pieces of a text share with it, also if they are joined by a slash. -/
structure Text.Inherited (P : Text → Prop) : Prop where
  piece : ∀ {s t : Text}, P t → s <:+: t → P s
  slash : ∀ {s t : Text}, P s → P t → P (s ++ "/" ++ t)

/-- Such a property that holds of every text without surrogates. -/
structure Text.Hereditary (P : Text → Prop) : Prop extends Text.Inherited P where
  string : ∀ s : String, P s

theorem Text.hereditary_true : Hereditary fun _ => True where
  string _ := trivial
  piece _ _ := trivial
  slash _ _ := trivial

theorem Text.hereditary_joined : Hereditary Joined where
  string s := joined_of_isEncodable (isEncodable_ofString s)
  piece := Joined.part
  slash hs ht := by
    rw [List.append_assoc]
    exact hs.append '/' ht

theorem Text.hereditary_isEncodable : Hereditary fun t => t.isEncodable = true where
  string := isEncodable_ofString
  piece := isEncodable_of_part
  slash hs ht := by
    simp only [isEncodable_iff, List.mem_append] at hs ht ⊢
    rintro c ((hc | hc) | hc)
    · exact hs c hc
    · exact isEncodable_iff.mp (isEncodable_ofString "/") c hc
    · exact ht c hc

/-- The texts that an error shows, as they were read. -/
def ParseError.texts : ParseError → List Text
  | danglingName name => [name.text]
  | openPackage path finish => [path, finish.text]
  | missingBrace package found => [package, found.text]
  | missingName keyword found => [keyword.text, found.text]
  | missingOperand arrow => [arrow.text]
  | unknownName name => [name.text]
  | missingSubject keyword => [keyword.text]
  | unsupportedArrow _ arrow => [arrow.text]

/-- Errors that come from a text, or from a graph made of texts, show these texts only. -/
def DiagramError.Traces (P : Text → Prop) : DiagramError → Prop
  | lex _ => True
  | parse e => ∀ t ∈ e.texts, P t
  | cycle name => P name
  | tree _ => False

/-- A graph whose names and packages are texts of a kind. -/
def Graph.Traces (P : Text → Prop) (g : Graph) : Prop := ∀ (i : Nat) (h : i < g.entities.size),
  P g.entities[i].name ∧ ∃ package, g.entities[i].package = .str package ∧ P package

namespace Builder

open Build

variable {P : Text → Prop} {α β : Type}

/-- A state of building all of whose texts are of a kind. -/
structure Traces (P : Text → Prop) (b : Builder) : Prop where
  empty : P []
  ahead : ∀ t ∈ b.feed.ahead, P t.text
  ending : ∀ mark, b.feed.ending = .ok mark → P mark.text
  latest : ∀ t ∈ b.feed.latest, P t.text
  previous : ∀ t ∈ b.feed.previous, P t.text
  graph : b.graph.Traces P
  packages : ∀ scope ∈ b.packages, P scope.path
  pending : ∀ t ∈ b.pending, P t.text

/-- A step of building that brings in no other texts, neither into the state nor into its error, and
whose result is as stated. -/
def Draws (P : Text → Prop) (m : Build α) (result : α → Prop) : Prop :=
  ∀ b, Traces P b → Traces P (m.run b).2 ∧
    match (m.run b).1 with
    | .ok a => result a
    | .error e => e.Traces P

theorem draws_pure {a : α} {result : α → Prop} (h : result a) : Draws P (pure a) result :=
  fun _ hb => ⟨hb, h⟩

theorem draws_fail {e : ParseError} (h : ∀ t ∈ e.texts, P t) {result : α → Prop} :
    Draws P (fail e) result := fun _ hb => ⟨hb, h⟩

theorem draws_state : Draws P state (Traces P) := fun _ hb => ⟨hb, hb⟩

theorem draws_change {f : Builder → Builder} (h : ∀ b, Traces P b → Traces P (f b)) :
    Draws P (change f) fun _ => True := fun b hb => ⟨h b hb, trivial⟩

theorem draws_bind {first : Build α} {second : α → Build β} {between : α → Prop}
    {result : β → Prop} (h : Draws P first between)
    (h' : ∀ a, between a → Draws P (second a) result) : Draws P (first >>= second) result := by
  intro b hb
  have begun := h b hb
  rw [run_bind]
  cases hm : first.run b with
  | mk r m =>
    rw [hm] at begun
    cases r with
    | ok a => exact h' a begun.2 m begun.1
    | error e => exact begun

theorem draws_take : Draws P take fun taken => P taken.asToken.text := by
  intro b hb
  simp only [take, Token.Feed.next]
  cases ha : b.feed.ahead with
  | cons t rest =>
    have first : P t.text := hb.ahead t (ha ▸ List.mem_cons_self)
    refine ⟨⟨hb.empty, fun u hu => hb.ahead u (ha ▸ List.mem_cons_of_mem _ hu), hb.ending, ?_,
      hb.latest, hb.graph, hb.packages, hb.pending⟩, first⟩
    rintro _ ⟨⟩
    exact first
  | nil =>
    cases he : b.feed.ending with
    | error e => exact ⟨hb, trivial⟩
    | ok mark =>
      have last : P mark.text := hb.ending mark he
      refine ⟨⟨hb.empty, fun u hu => hb.ahead u hu, hb.ending, ?_, hb.latest, hb.graph, hb.packages,
        hb.pending⟩, last⟩
      rintro _ ⟨⟩
      exact last

theorem draws_expectName {keyword : Token} (h : P keyword.text) :
    Draws P (expectName keyword) fun name => P name.text := by
  refine draws_bind draws_take fun taken found => ?_
  simp only
  split
  · exact draws_pure found
  · refine draws_fail ?_
    simp only [ParseError.texts, List.forall_mem_cons]
    exact ⟨h, found, nofun⟩

theorem draws_resolve {name : Token} (h : P name.text) :
    Draws P (resolve name) fun _ => True := by
  refine draws_bind draws_state fun b _ => ?_
  split
  · exact draws_pure trivial
  · exact draws_fail (by simpa [ParseError.texts] using h)

theorem draws_settle : Draws P settle fun _ => True :=
  draws_change fun _ hb => { hb with pending := nofun }

/-! ## What a statement does -/

theorem traces_declare {g : Graph} (h : g.Traces P) {name package : Text} (kind : EntityKind)
    (hn : P name) (hp : P package) : (g.declare ⟨name, .str package, kind, [], []⟩).Traces P := by
  intro i hi
  simp only [Graph.declare, Graph.create, Graph.register, Array.getElem_push]
  split
  · exact h i ‹_›
  · exact ⟨hn, package, rfl, hp⟩

theorem traces_relate {g : Graph} (h : g.Traces P) (child : Nat) (relation : Relation)
    (target : Nat) : (g.relate child relation target).Traces P := by
  intro i hi
  simp only [Graph.relate, Array.size_modify] at hi
  have same := h i hi
  simp only [Graph.relate, Array.getElem_modify]
  split
  · cases relation <;> exact same
  · exact same

theorem Traces.currentPackage {b : Builder} (h : Traces P b) : P b.currentPackage := by
  unfold Builder.currentPackage
  split
  · exact h.empty
  · rename_i scope _ hs
    exact h.packages scope (hs ▸ List.mem_cons_self)

theorem Traces.closeBrace {b : Builder} (h : Traces P b) : Traces P b.closeBrace := by
  have deeper (depth : Nat) : Traces P { b with depth } := { h with }
  unfold Builder.closeBrace
  split
  · exact h
  · split
    · rename_i scope rest opened
      split
      · exact { h with packages := fun s hs => h.packages s (opened ▸ List.mem_cons_of_mem _ hs) }
      · exact deeper _
    · exact deeper _

theorem draws_relate (child : Nat) (relation : Relation) (target : Nat) :
    Draws P (relate child relation target) fun _ => True :=
  draws_change fun _ hb => { hb with graph := traces_relate hb.graph child relation target }

theorem draws_lastDeclared {keyword : Token} (h : P keyword.text) (b : Builder) :
    Draws P (keywordSubject.lastDeclared keyword b) fun _ => True := by
  unfold keywordSubject.lastDeclared
  split
  · exact draws_pure trivial
  · exact draws_fail (by simpa [ParseError.texts] using h)

theorem draws_keywordSubject {keyword : Token} (h : P keyword.text) :
    Draws P (keywordSubject keyword) fun _ => True := by
  refine draws_bind draws_settle fun _ _ => draws_bind draws_state fun b hb => ?_
  split
  · rename_i name before
    have named : P name.text := hb.previous name before
    split
    · split
      · exact draws_pure trivial
      · split
        · exact draws_resolve named
        · exact draws_lastDeclared h b
    · split
      · exact draws_resolve named
      · exact draws_lastDeclared h b
  · exact draws_lastDeclared h b

theorem draws_keywordRelation {keyword : Token} (h : P keyword.text) (relation : Relation) :
    Draws P (keywordRelation keyword relation) fun _ => True :=
  draws_bind (draws_keywordSubject h) fun _ _ =>
    draws_bind (draws_expectName h) fun _ hn =>
      draws_bind (draws_resolve hn) fun _ _ =>
        draws_bind (draws_relate _ _ _) fun _ _ => draws_change fun _ hb => { hb with }

theorem draws_arrowRelation {arrow : Token} (h : P arrow.text) (side : Side) :
    Draws P (arrowRelation arrow side) fun _ => True := by
  unfold arrowRelation Token.relation
  simp only
  split
  · exact draws_pure trivial
  · rename_i failed
    split at failed
    · cases failed
    · cases failed
      exact draws_fail (by simpa [ParseError.texts] using h)

theorem draws_leftOperand {arrow : Token} (h : P arrow.text) :
    Draws P (leftOperand arrow) fun name => P name.text := by
  have missing : Draws P (fail (α := Token) (.missingOperand arrow)) fun name => P name.text :=
    draws_fail (by simpa [ParseError.texts] using h)
  refine draws_bind draws_state fun b hb => ?_
  split
  · rename_i name before
    split
    · exact draws_pure (hb.previous name before)
    · exact missing
  · exact missing

theorem draws_drawArrow {arrow : Token} (h : P arrow.text) (side : Side) :
    Draws P (drawArrow arrow side) fun _ => True := by
  refine draws_bind (draws_leftOperand h) fun left hl =>
    draws_bind (draws_arrowRelation h side) fun _ _ => draws_bind draws_settle fun _ _ =>
      draws_bind (draws_resolve hl) fun _ _ => draws_bind (draws_expectName h) fun _ hr =>
        draws_bind (draws_resolve hr) fun _ _ => ?_
  cases side
  · exact draws_relate _ _ _
  · exact draws_relate _ _ _

theorem draws_checkEnd {mark : Token.EndMark} (h : P mark.text) :
    Draws P (checkEnd mark) fun _ => True := by
  refine draws_bind draws_state fun b hb => ?_
  split
  · rename_i name waits
    exact draws_fail (by simpa [ParseError.texts] using hb.pending name waits)
  · split
    · exact draws_pure trivial
    · refine draws_fail ?_
      simp only [ParseError.texts, List.forall_mem_cons]
      exact ⟨hb.currentPackage, h, nofun⟩

section

variable (inherited : Text.Inherited P)

include inherited

theorem value_of_text {name : Token} (h : P name.text) : P name.value := by
  unfold Token.value
  split
  · unfold unquote?
    split
    · rename_i rest quoted
      split
      · rw [quoted] at h
        have front : rest.dropLast <+: rest := List.dropLast_prefix rest
        exact inherited.piece h (front.isInfix.trans (List.suffix_cons _ _).isInfix)
      · exact h
    · exact h
  · exact h

theorem draws_declareEntity {keyword : Token} (h : P keyword.text) (kind : EntityKind) :
    Draws P (declareEntity keyword kind) fun _ => True := by
  refine draws_bind (draws_expectName h) fun name hn => draws_change fun b hb => ?_
  exact { hb with
    graph := traces_declare hb.graph kind (value_of_text inherited hn) hb.currentPackage }

theorem draws_openPackage {keyword : Token} (h : P keyword.text) :
    Draws P (openPackage keyword) fun _ => True := by
  refine draws_bind (draws_expectName h) fun name hn => draws_bind draws_take fun brace hb => ?_
  have named := value_of_text inherited hn
  simp only
  split
  · refine draws_change fun b traces => { traces with packages := fun scope hs => ?_ }
    rcases List.mem_cons.mp hs with rfl | hs
    · show P (b.innerPath name.value)
      unfold innerPath
      split
      · exact named
      · exact inherited.slash traces.currentPackage named
    · exact traces.packages scope hs
  · refine draws_fail ?_
    simp only [ParseError.texts, List.forall_mem_cons]
    exact ⟨named, hb, nofun⟩

theorem draws_handle {token : Token} (h : P token.text) : Draws P (handle token) fun _ => True := by
  unfold handle
  split
  · exact draws_pure trivial
  · exact draws_pure trivial
  · exact draws_declareEntity inherited h _
  · exact draws_openPackage inherited h
  · refine draws_change fun b hb => { hb with pending := ?_ }
    rintro _ ⟨⟩
    exact h
  · exact draws_change fun b hb => { hb with }
  · exact draws_change fun _ hb => hb.closeBrace
  · exact draws_keywordRelation h _
  · exact draws_drawArrow h _

theorem draws_step : Draws P step fun _ => True := by
  refine draws_bind draws_take fun taken found => ?_
  cases taken with
  | finish mark => exact draws_bind (draws_checkEnd found) fun _ _ => draws_pure trivial
  | token token =>
    refine draws_bind draws_state fun b hb => ?_
    have handled : Draws P (handle token >>= fun _ => (pure false : Build Bool)) fun _ => True :=
      draws_bind (draws_handle inherited found) fun _ _ => draws_pure trivial
    split
    · rename_i name waits
      split
      · exact handled
      · exact draws_fail (by simpa [ParseError.texts] using hb.pending name waits)
    · exact handled

/-- A whole run brings in no other texts either, neither into its graph nor into its error. -/
theorem traces_run {b : Builder} (h : Traces P b) :
    match b.run.1 with
    | .ok g => g.Traces P
    | .error e => e.Traces P := by
  fun_induction run b with
  | case1 b b' stepped =>
    have := draws_step inherited b h
    rw [stepped] at this
    exact this.1.graph
  | case2 b b' stepped _ ih =>
    have := draws_step inherited b h
    rw [stepped] at this
    exact ih this.1
  | case3 b e b' stepped =>
    have := draws_step inherited b h
    rw [stepped] at this
    exact this.2

theorem traces_ofText {source : Text} (h : P source) : Traces P (ofText source) := by
  have piece {t : Token} {p : Nat} (stands : Token.StandsAt source t p) : P t.text := by
    have taken : (source.drop p).take t.text.length <+: source.drop p := List.take_prefix _ _
    rw [← stands.text]
    exact inherited.piece h (taken.isInfix.trans (List.drop_suffix _ _).isInfix)
  obtain ⟨offsets, stop, spread, _, ends⟩ := Token.readAll_at (Token.Cursor.at_ofText source)
  have all {a b : Nat} {ts : List Token} {ps : List Nat} (spread : Token.Spread source a ts ps b) :
      ∀ t ∈ ts, P t.text := by
    induction spread with
    | nil => nofun
    | cons _ stands _ ih => exact List.forall_mem_cons.mpr ⟨piece stands, ih⟩
  refine ⟨inherited.piece h ⟨[], source, rfl⟩, all spread, fun mark finished => ?_, nofun, nofun,
    nofun, nofun, nofun⟩
  change (Token.readAll (.ofText source)).2 = _ at finished
  rw [finished] at ends
  obtain ⟨_, _, stands, _⟩ := ends
  exact piece stands

end

end Builder

/-- The texts of a graph, and the ones that an error shows, are made from the text that is read. -/
theorem traces_parse {P : Text → Prop} (hereditary : Text.Hereditary P) {source : Text}
    (h : P source) : (∀ g, parse source = .ok g → g.Traces P) ∧
      ∀ e, parse source = .error e → e.Traces P := by
  have traces := Builder.traces_run hereditary.toInherited
    (Builder.traces_ofText hereditary.toInherited h)
  constructor
  · intro g parsed
    rwa [show (Builder.ofText source).run.1 = .ok g from parsed] at traces
  · intro e failed
    rwa [show (Builder.ofText source).run.1 = .error e from failed] at traces

end ClassGraph
