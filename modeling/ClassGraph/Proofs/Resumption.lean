import ClassGraph.Proofs.Failure
import ClassGraph.Proofs.Scope
import ClassGraph.Proofs.Stream
import ClassGraph.Proofs.Unfolding

/-! # Building that is taken up again

A run that stopped can be taken up again where it stopped, any number of times.
Whether the runs before it came to the end or to an error, the graph only grows,
its relations stay inside it, and the open packages stay nested. Every run takes
a token, so that sooner or later all runs have the same result.
-/

namespace ClassGraph

/-! ## Graphs that grow -/

/-- Relations are added to an entity behind those that it has. -/
structure Entity.Extends (e e' : Entity) : Prop where
  name : e'.name = e.name
  package : e'.package = e.package
  kind : e'.kind = e.kind
  parents : e.parents <+: e'.parents
  interfaces : e.interfaces <+: e'.interfaces

theorem Entity.Extends.refl (e : Entity) : e.Extends e :=
  ⟨rfl, rfl, rfl, List.prefix_refl _, List.prefix_refl _⟩

theorem Entity.Extends.trans {e₁ e₂ e₃ : Entity} (h : e₁.Extends e₂) (h' : e₂.Extends e₃) :
    e₁.Extends e₃ where
  name := h'.name.trans h.name
  package := h'.package.trans h.package
  kind := h'.kind.trans h.kind
  parents := h.parents.trans h'.parents
  interfaces := h.interfaces.trans h'.interfaces

theorem Entity.extends_relate (e : Entity) (relation : Relation) (target : Nat) :
    e.Extends (e.relate relation target) := by
  cases relation
  · exact ⟨rfl, rfl, rfl, List.prefix_append _ _, List.prefix_refl _⟩
  · exact ⟨rfl, rfl, rfl, List.prefix_refl _, List.prefix_append _ _⟩

theorem Entity.mem_targets_relate {e : Entity} {relation : Relation} {target t : Nat} :
    t ∈ (e.relate relation target).targets ↔ t ∈ e.targets ∨ t = target := by
  cases relation <;> simp [relate, targets, or_left_comm, or_comm]

namespace Graph

/-- Entities are added behind those that are there. -/
structure Extends (g g' : Graph) : Prop where
  registry : g.registry <+: g'.registry
  size : g.entities.size ≤ g'.entities.size
  entity : ∀ i < g.entities.size, (g.entity i).Extends (g'.entity i)

/-- All entities are registered, and so are the targets of all relations. -/
structure Closed (g : Graph) : Prop where
  registry : g.registry = List.range g.entities.size
  targets : ∀ i, ∀ t ∈ (g.entity i).targets, t ∈ g.registry

theorem Extends.refl (g : Graph) : g.Extends g :=
  ⟨List.prefix_refl _, Nat.le_refl _, fun _ _ => .refl _⟩

theorem Extends.trans {g₁ g₂ g₃ : Graph} (h : g₁.Extends g₂) (h' : g₂.Extends g₃) :
    g₁.Extends g₃ where
  registry := h.registry.trans h'.registry
  size := Nat.le_trans h.size h'.size
  entity i hi := (h.entity i hi).trans (h'.entity i (Nat.lt_of_lt_of_le hi h.size))

theorem closed_empty : empty.Closed where
  registry := rfl
  targets i t ht := by
    rw [entity_of_size_le (Nat.zero_le i)] at ht
    cases ht

variable {g : Graph}

theorem entity_declare_of_ne {e : Entity} {i : Nat} (hi : i ≠ g.entities.size) :
    (g.declare e).entity i = g.entity i := by
  simp [declare, create, register, entity, Array.getD_eq_getD_getElem?, Array.getElem?_push, hi]

theorem entity_declare_self (g : Graph) (e : Entity) :
    (g.declare e).entity g.entities.size = e := by
  simp [declare, create, register, entity, Array.getD_eq_getD_getElem?]

theorem extends_declare (g : Graph) (e : Entity) : g.Extends (g.declare e) where
  registry := List.prefix_append _ _
  size := by simp [declare, create, register]
  entity i hi := by
    rw [entity_declare_of_ne (Nat.ne_of_lt hi)]
    exact .refl _

theorem Closed.declare (h : g.Closed) {e : Entity} (bare : e.targets = []) :
    (g.declare e).Closed where
  registry := by
    simp [Graph.declare, create, register, h.registry, List.range_succ]
  targets i t ht := by
    by_cases hi : i = g.entities.size
    · subst hi
      rw [entity_declare_self, bare] at ht
      cases ht
    · rw [entity_declare_of_ne hi] at ht
      exact List.mem_append_left _ (h.targets i t ht)

theorem entity_draw_of_ne {e : Edge} {i : Nat} (hi : i ≠ e.child) :
    (g.draw e).entity i = g.entity i := by
  simp [draw, relate, entity, Array.getD_eq_getD_getElem?, Array.getElem?_modify, hi.symm]

theorem entity_draw_self {e : Edge} (h : e.child < g.entities.size) :
    (g.draw e).entity e.child = (g.entity e.child).relate e.relation e.target := by
  simp [draw, relate, entity, Array.getD_eq_getD_getElem?, Array.getElem_modify, h]

theorem size_draw (g : Graph) (e : Edge) : (g.draw e).entities.size = g.entities.size := by
  simp [draw, relate]

theorem extends_draw (g : Graph) (e : Edge) : g.Extends (g.draw e) where
  registry := List.prefix_refl _
  size := Nat.le_of_eq (g.size_draw e).symm
  entity i hi := by
    by_cases hc : i = e.child
    · subst hc
      rw [entity_draw_self hi]
      exact Entity.extends_relate _ _ _
    · rw [entity_draw_of_ne hc]
      exact .refl _

theorem mem_targets_draw {e : Edge} {i t : Nat} (h : t ∈ ((g.draw e).entity i).targets) :
    t ∈ (g.entity i).targets ∨ t = e.target := by
  by_cases hc : i = e.child
  · subst hc
    by_cases hi : e.child < g.entities.size
    · rw [entity_draw_self hi] at h
      exact Entity.mem_targets_relate.mp h
    · rw [entity_of_size_le (by rw [size_draw]; exact Nat.le_of_not_lt hi)] at h
      cases h
  · rw [entity_draw_of_ne hc] at h
    exact .inl h

theorem Closed.draw (h : g.Closed) {e : Edge} (target : e.target ∈ g.registry) :
    (g.draw e).Closed where
  registry := by rw [size_draw]; exact h.registry
  targets i t ht := by
    rcases mem_targets_draw ht with ht | rfl
    · exact h.targets i t ht
    · exact target

theorem mem_registry_of_find? {name : Text} {i : Nat} (h : g.find? name = some i) :
    i ∈ g.registry := List.mem_of_find?_eq_some h

end Graph

/-! ## Scopes -/

/-- Inner packages are opened at greater depths. -/
theorem pairwise_scopesOf (frames : List Frame) :
    (scopesOf frames).Pairwise fun inner outer => outer.depth < inner.depth := by
  induction frames with
  | nil => exact .nil
  | cons frame frames ih =>
    cases frame with
    | plain => exact ih
    | package name => exact .cons (fun _ hs => depth_lt_of_mem_scopesOf hs) ih

theorem path_of_scopesOf {frames : List Frame} {scope : Scope} {outer : List Scope}
    (h : scopesOf frames = scope :: outer) : scope.path = Frame.path frames := by
  induction frames with
  | nil => cases h
  | cons frame frames ih =>
    cases frame with
    | plain => exact ih h
    | package name => cases h; rfl

/-- The path of a package in another one is built on the path of that one. -/
theorem exists_name_of_scopesOf {frames : List Frame} {i : Nat} {inner outer : Scope}
    (hi : (scopesOf frames)[i]? = some inner) (ho : (scopesOf frames)[i + 1]? = some outer) :
    ∃ name, .package name ∈ frames ∧ inner.path = outer.path ++ "/" ++ name := by
  induction frames generalizing i with
  | nil => cases hi
  | cons frame frames ih =>
    cases frame with
    | plain =>
      obtain ⟨name, hm, hp⟩ := ih hi ho
      exact ⟨name, List.mem_cons_of_mem _ hm, hp⟩
    | package name =>
      cases i with
      | zero =>
        cases hi
        have split : scopesOf frames = outer :: (scopesOf frames).tail :=
          List.eq_cons_of_mem_head? (List.head?_eq_getElem? ▸ ho)
        refine ⟨name, List.mem_cons_self, ?_⟩
        rw [path_of_scopesOf split]
        refine Frame.path_package fun plain => ?_
        rw [scopesOf_eq_nil_iff.mpr plain] at split
        cases split
      | succ i =>
        obtain ⟨name, hm, hp⟩ := ih hi ho
        exact ⟨name, List.mem_cons_of_mem _ hm, hp⟩

/-- The names of packages come from the text. -/
def Frame.Named (tokens : List Token) (frames : List Frame) : Prop :=
  ∀ name, .package name ∈ frames → ∃ t ∈ tokens, t.kind = .name ∧ t.value = name

namespace Builder

open Build

/-- The open packages are nested: their depths grow inwards and stay below the
current depth, and each path but the outermost is built on the one outside with a
name of the text. -/
structure Nests (tokens : List Token) (b : Builder) : Prop where
  depths : b.packages.Pairwise fun inner outer => outer.depth < inner.depth
  below : ∀ scope ∈ b.packages, scope.depth < b.depth
  paths : ∀ (i : Nat) inner outer, b.packages[i]? = some inner →
    b.packages[i + 1]? = some outer → ∃ t ∈ tokens, t.kind = .name ∧
      inner.path = outer.path ++ "/" ++ t.value

variable {tokens : List Token} {b b' : Builder}

theorem Encloses.nests {frames : List Frame} (h : b.Encloses frames)
    (named : Frame.Named tokens frames) : Nests tokens b where
  depths := by rw [h.packages]; exact pairwise_scopesOf frames
  below := by rw [h.packages, h.depth]; exact fun _ hs => depth_lt_of_mem_scopesOf hs
  paths := by
    rw [h.packages]
    intro i inner outer hi ho
    obtain ⟨name, hm, hp⟩ := exists_name_of_scopesOf hi ho
    obtain ⟨t, ht, hk, rfl⟩ := named name hm
    exact ⟨t, ht, hk, hp⟩

/-- What holds of every state, also after an error: the tokens ahead are left of
those of the text, the graph is closed, and the recorded packages stand for a
stack of frames with names of the text. -/
structure Sound (tokens : List Token) (b : Builder) : Prop where
  ahead : b.feed.ahead <:+ tokens
  closed : b.graph.Closed
  frames : ∃ frames, b.Encloses frames ∧ Frame.Named tokens frames

namespace Sound

theorem ofText (source : Text) : Sound (Token.stream source).1 (.ofText source) :=
  ⟨List.suffix_refl _, Graph.closed_empty, [], ⟨rfl, rfl⟩, nofun⟩

/-- A statement adds to the graph and keeps what holds. -/
theorem reads (h : Sound tokens b) (hr : Reads b b') :
    Sound tokens b' ∧ b.graph.Extends b'.graph := by
  have ahead := hr.feed_suffix.1.trans h.ahead
  obtain ⟨frames, encloses, named⟩ := h.frames
  cases hr with
  | start => exact ⟨⟨ahead, h.closed, frames, encloses.pass _, named⟩, .refl _⟩
  | name =>
    exact ⟨⟨ahead, h.closed, frames, ⟨encloses.packages, encloses.depth⟩, named⟩, .refl _⟩
  | openBrace =>
    refine ⟨⟨ahead, h.closed, _, (encloses.pass _).openBrace, ?_⟩, .refl _⟩
    intro name hm
    exact named name (by simpa using hm)
  | @closeBrace t =>
    have graph : (b.pass t).closeBrace.graph = b.graph := by
      rw [closeBrace_eq]
      rfl
    refine ⟨⟨ahead, graph ▸ h.closed, _, (encloses.pass _).closeBrace, ?_⟩, graph ▸ .refl _⟩
    exact fun name hm => named name (List.mem_of_mem_tail hm)
  | declaration =>
    exact ⟨⟨ahead, h.closed.declare rfl, frames, ⟨encloses.packages, encloses.depth⟩, named⟩,
      Graph.extends_declare _ _⟩
  | @package keyword name brace free next kind name_next name_kind brace_next brace_kind =>
    refine ⟨⟨ahead, h.closed, _, (((encloses.pass _).pass _).pass _).enter _, ?_⟩, .refl _⟩
    intro n hm
    rcases List.mem_cons.mp hm with hm | hm
    · cases hm
      have mem : name ∈ b.feed.ahead := List.mem_of_mem_tail (List.mem_of_mem_head? name_next)
      exact ⟨name, h.ahead.subset mem, name_kind, rfl⟩
    · exact named n hm
  | keyword _ _ _ _ _ resolved =>
    exact ⟨⟨ahead, h.closed.draw (Graph.mem_registry_of_find? resolved), frames,
      ⟨encloses.packages, encloses.depth⟩, named⟩, Graph.extends_draw _ _⟩
  | @arrow _ _ _ side _ before after _ _ _ _ _ left_resolved _ _ right_resolved =>
    refine ⟨⟨ahead, h.closed.draw ?_, frames, ⟨encloses.packages, encloses.depth⟩, named⟩,
      Graph.extends_draw _ _⟩
    cases side
    · exact Graph.mem_registry_of_find? left_resolved
    · exact Graph.mem_registry_of_find? right_resolved

theorem spares (h : Sound tokens b) (hs : Spares b b') : Sound tokens b' where
  ahead := hs.ahead.trans h.ahead
  closed := hs.graph ▸ h.closed
  frames := by
    obtain ⟨frames, encloses, named⟩ := h.frames
    exact ⟨frames, ⟨hs.packages.trans encloses.packages, hs.depth.trans encloses.depth⟩, named⟩

theorem reaches (h : Sound tokens b) (unmarked : ∀ t ∈ tokens, t.kind ≠ .finish)
    (hr : Reaches b b') : Sound tokens b' ∧ b.graph.Extends b'.graph := by
  have read := (hr.reads fun t ht => unmarked t (h.ahead.subset ht)).1
  clear hr
  induction read with
  | refl => exact ⟨h, .refl _⟩
  | tail _ last ih =>
    obtain ⟨sound, grown⟩ := ih
    obtain ⟨sound', more⟩ := sound.reads last
    exact ⟨sound', grown.trans more⟩

theorem run (h : Sound tokens b) (unmarked : ∀ t ∈ tokens, t.kind ≠ .finish) :
    Sound tokens b.run.2 ∧ b.graph.Extends b.run.2.graph := by
  obtain ⟨m, reach, spares, _⟩ := run_stops b
  obtain ⟨sound, grown⟩ := h.reaches unmarked reach
  exact ⟨sound.spares spares, spares.graph ▸ grown⟩

end Sound

/-! ## Any number of runs -/

/-- The state after some runs on one text, each taken up where the one before
stopped. -/
def resumed (source : Text) : Nat → Builder
  | 0 => ofText source
  | runs + 1 => (resumed source runs).run.2

theorem sound_resumed (source : Text) (runs : Nat) :
    Sound (Token.stream source).1 (resumed source runs) := by
  induction runs with
  | zero => exact .ofText source
  | succ runs ih => exact (ih.run fun _ ht => Token.kind_ne_finish_of_mem_stream ht).1

/-- Every run takes a token, if there is one. -/
theorem length_resumed (source : Text) (runs : Nat) :
    (resumed source runs).feed.ahead.length ≤ (Token.stream source).1.length - runs := by
  induction runs with
  | zero => exact Nat.le_refl _
  | succ runs ih =>
    have taken := (ahead_of_run (resumed source runs)).length_le
    rw [List.length_tail] at taken
    exact Nat.le_trans taken (by omega)

/-! ## At the end of the tokens -/

/-- States that a run cannot tell apart where no tokens are left. -/
structure Rests (b b' : Builder) : Prop where
  graph : b'.graph = b.graph
  packages : b'.packages = b.packages
  depth : b'.depth = b.depth
  pending : b'.pending = b.pending
  ahead : b'.feed.ahead = b.feed.ahead
  ending : b'.feed.ending = b.feed.ending

theorem Rests.refl (b : Builder) : Rests b b := ⟨rfl, rfl, rfl, rfl, rfl, rfl⟩

theorem Rests.trans {b₁ b₂ b₃ : Builder} (h : Rests b₁ b₂) (h' : Rests b₂ b₃) : Rests b₁ b₃ where
  graph := h'.graph.trans h.graph
  packages := h'.packages.trans h.packages
  depth := h'.depth.trans h.depth
  pending := h'.pending.trans h.pending
  ahead := h'.ahead.trans h.ahead
  ending := h'.ending.trans h.ending

theorem Rests.answer_eq (h : Rests b b') : b'.answer = b.answer := by
  unfold answer currentPackage
  rw [h.ending, h.pending, h.packages, h.graph]

theorem rests_of_run (h : b.feed.ahead = []) : Rests b b.run.2 := by
  obtain ⟨feed, stopped, ahead, ending⟩ := run_of_exhausted h
  rw [stopped]
  exact ⟨rfl, rfl, rfl, rfl, ahead.trans h.symm, ending⟩

theorem answer_of_run (h : b.feed.ahead = []) : b.run.1 = b.answer := by
  obtain ⟨feed, stopped, _⟩ := run_of_exhausted h
  rw [stopped]

theorem ahead_resumed {source : Text} {runs : Nat} (h : (Token.stream source).1.length ≤ runs) :
    (resumed source runs).feed.ahead = [] := by
  have := length_resumed source runs
  exact List.length_eq_zero_iff.mp (by omega)

theorem rests_resumed (source : Text) (more : Nat) :
    Rests (resumed source (Token.stream source).1.length)
      (resumed source ((Token.stream source).1.length + more)) := by
  induction more with
  | zero => exact .refl _
  | succ more ih =>
    exact ih.trans (rests_of_run (ahead_resumed (Nat.le_add_right _ more)))

end Builder

/-- Building may be taken up again after any outcome, any number of times. A run
adds to the registry and to the relations of an entity at their ends only. All
relations lead to registered entities. The open packages are nested. A statement
that fails has added nothing and opened nothing. After as many runs as there are
tokens all runs have one result and change nothing. -/
theorem resumed_runs (source : Text) (runs : Nat) :
    let tokens := (Token.stream source).1
    let b := Builder.resumed source runs
    let b' := Builder.resumed source (runs + 1)
    b.graph.Extends b'.graph ∧ b.graph.Closed ∧ Builder.Nests tokens b ∧
    (∀ e, b.run.1 = .error e → ∃ m, Builder.Reaches b m ∧
      Builder.step.run m = (.error e, b') ∧ b'.graph = m.graph ∧
      b'.packages = m.packages ∧ b'.depth = m.depth) ∧
    (tokens.length ≤ runs → b.run.1 = (Builder.resumed source tokens.length).run.1 ∧
      Builder.Rests (Builder.resumed source tokens.length) b') := by
  intro tokens b b'
  have sound := Builder.sound_resumed source runs
  have unmarked : ∀ t ∈ tokens, t.kind ≠ .finish := fun _ ht =>
    Token.kind_ne_finish_of_mem_stream ht
  obtain ⟨frames, encloses, named⟩ := sound.frames
  refine ⟨(sound.run unmarked).2, sound.closed, encloses.nests named, fun e failed => ?_,
    fun late => ?_⟩
  · obtain ⟨m, reach, spares, ⟨_, ok⟩ | ⟨e', stepped, result⟩⟩ := Builder.run_stops b
    · rw [ok] at failed
      cases failed
    · cases failed.symm.trans result
      exact ⟨m, reach, stepped, spares.graph, spares.packages, spares.depth⟩
  · obtain ⟨more, rfl⟩ := Nat.exists_eq_add_of_le late
    have first := Builder.ahead_resumed (Nat.le_refl tokens.length)
    have here := Builder.ahead_resumed late
    have rests := Builder.rests_resumed source more
    refine ⟨?_, rests.trans (Builder.rests_of_run here)⟩
    rw [Builder.answer_of_run here, Builder.answer_of_run first, rests.answer_eq]

/-- A name that waits is reported three times, the fourth run takes it for the
subject of a relation and does not find it. From the fifth run on the result is a
graph. -/
theorem resumed_runs_over_errors : ∃ (source : Text) (g : Graph),
    source = ("class A A class B B extends \x7d" : String) ∧
    (∀ runs < 4, (Builder.resumed source runs).run.1.isOk = false) ∧
    (∀ runs, 8 ≤ runs → (Builder.resumed source runs).run.1 = .ok g) ∧
    g.names = ["A"] ∧ Builder.Nests (Token.stream source).1 (Builder.resumed source 4) ∧
    (Builder.resumed source 0).graph.Extends (Builder.resumed source 1).graph := by
  let source : Text := ("class A A class B B extends \x7d" : String)
  have length : (Token.stream source).1.length = 8 := by decide +kernel
  have refused : ∀ runs < 4, (Builder.resumed source runs).run.1.isOk = false := by decide +kernel
  obtain ⟨g, hg⟩ : ∃ g, (Builder.resumed source 8).run.1 = .ok g :=
    exists_ok_of_isOk (by decide +kernel)
  have names : ((Builder.resumed source 8).run.1.toOption.map Graph.names) =
      some [("A" : Text)] := by
    decide +kernel
  rw [hg] at names
  refine ⟨source, g, rfl, refused, fun runs late => ?_, Option.some.inj names,
    (resumed_runs source 4).2.2.1, (resumed_runs source 0).1⟩
  have settled := ((resumed_runs source runs).2.2.2.2 (by rw [length]; exact late)).1
  rw [length] at settled
  exact settled.trans hg

end ClassGraph
